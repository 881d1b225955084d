import Mathlib.Data.List.Forall2
import ServiceDirectory.Proofs.Utf8
import ServiceDirectory.Text.Form

/-!
# Escaped texts are read as what they stand for

A text can be written in a path or in a form in many ways: each of its bytes may be
escaped, with digits of either case, and what is harmless there may stand for itself.
All these ways are read as the one text. None of the marks that divide a target or a
form can come from a text written in it.
-/

namespace ServiceDirectory.Text

/-! ## Escapes -/

/-- The byte of a character of ASCII. -/
def byteOf (c : Char) : UInt8 := UInt8.ofNat c.toNat

/-- A hexadecimal digit of either case. -/
def IsHexDigit (c : Char) (n : Nat) : Prop :=
  n < 16 ∧ (c = hexDigit n ∨ c = (hexDigit n).toLower)

/-- A way of writing bytes: each of them is escaped, or a character stands for it that may stand
alone. -/
inductive Escaped (alone? : Char → Option UInt8) : List UInt8 → List Char → Prop
  | nil : Escaped alone? [] []
  | alone {c : Char} {b : UInt8} {bytes : List UInt8} {text : List Char} (hc : alone? c = some b)
      (h : Escaped alone? bytes text) : Escaped alone? (b :: bytes) (c :: text)
  | escape {high low : Char} {m n : Nat} {bytes : List UInt8} {text : List Char}
      (hhigh : IsHexDigit high m) (hlow : IsHexDigit low n) (h : Escaped alone? bytes text) :
      Escaped alone? (UInt8.ofNat (m * 16 + n) :: bytes) ('%' :: high :: low :: text)

/-- Characters that divide targets and forms. -/
def dividers : List Char := ['/', '?', '#', '&', '=']

theorem IsHexDigit.ascii {c : Char} {n : Nat} (h : IsHexDigit c n) :
    c.toNat < 0x80 ∧ c ∉ dividers := by
  obtain ⟨hn, h⟩ := h
  have hdigits : ∀ n < 16, ((hexDigit n).toNat < 0x80 ∧ hexDigit n ∉ dividers) ∧
      (hexDigit n).toLower.toNat < 0x80 ∧ (hexDigit n).toLower ∉ dividers := by decide
  rcases h with rfl | rfl
  · exact (hdigits n hn).1
  · exact (hdigits n hn).2

theorem IsHexDigit.hexByte? {c : Char} {n : Nat} (h : IsHexDigit c n) :
    hexByte? (byteOf c) = some n ∧ byteOf c ≠ 0x2B := by
  obtain ⟨hn, h⟩ := h
  have hdigits : ∀ n < 16,
      (Text.hexByte? (byteOf (hexDigit n)) = some n ∧ byteOf (hexDigit n) ≠ 0x2B) ∧
        Text.hexByte? (byteOf (hexDigit n).toLower) = some n ∧
        byteOf (hexDigit n).toLower ≠ 0x2B := by decide
  rcases h with rfl | rfl
  · exact (hdigits n hn).1
  · exact (hdigits n hn).2

theorem isHexDigit_hexDigit {n : Nat} (h : n < 16) : IsHexDigit (hexDigit n) n := ⟨h, .inl rfl⟩

theorem percentDecode_cons {b : UInt8} (h : b ≠ 0x25) (rest : List UInt8) :
    percentDecode (b :: rest) = b :: percentDecode rest := by
  match rest with
  | [] => rfl
  | [_] => rfl
  | _ :: _ :: _ => rw [percentDecode, if_neg h]

theorem percentDecode_escape {high low b : UInt8} (h : hexPair? high low = some b)
    (rest : List UInt8) :
    percentDecode (0x25 :: high :: low :: rest) = b :: percentDecode rest := by
  rw [percentDecode, if_pos rfl, h]

namespace Escaped

variable {alone? : Char → Option UInt8} {bytes : List UInt8} {text : List Char}

theorem ascii (h : Escaped alone? bytes text)
    (halone : ∀ c b, alone? c = some b → c.toNat < 0x80) : ∀ c ∈ text, c.toNat < 0x80 := by
  induction h with
  | nil => simp
  | @alone c b bytes text hc _ ih => exact List.forall_mem_cons.mpr ⟨halone c b hc, ih⟩
  | escape hhigh hlow _ ih =>
      simp only [List.forall_mem_cons]
      exact ⟨by decide, hhigh.ascii.1, hlow.ascii.1, ih⟩

/-- A divider that may not stand alone does not occur. -/
theorem not_mem (h : Escaped alone? bytes text) {divider : Char} (hdivider : divider ∈ dividers)
    (hnone : alone? divider = none) : divider ∉ text := by
  induction h with
  | nil => simp
  | @alone c b bytes text hc _ ih =>
      have hne : divider ≠ c := by
        rintro rfl
        rw [hnone] at hc
        cases hc
      simp [hne, ih]
  | @escape high low m n bytes text hhigh hlow _ ih =>
      have hpercent : divider ≠ '%' := by
        rintro rfl
        revert hdivider
        decide
      have hhigh' : divider ≠ high := fun heq => hhigh.ascii.2 (heq ▸ hdivider)
      have hlow' : divider ≠ low := fun heq => hlow.ascii.2 (heq ▸ hdivider)
      simp [hpercent, hhigh', hlow', ih]

theorem ne_nil (h : Escaped alone? bytes text) (hbytes : bytes ≠ []) : text ≠ [] := by
  cases h with
  | nil => exact absurd rfl hbytes
  | alone => simp
  | escape => simp

/-- Where the bytes of characters that stand alone are the ones they stand for, after what is done
to plus signs, all bytes are read. -/
theorem percentDecode_eq (h : Escaped alone? bytes text) {g : UInt8 → UInt8}
    (hg : ∀ b, b ≠ 0x2B → g b = b)
    (halone : ∀ c b, alone? c = some b → g (byteOf c) = b ∧ b ≠ 0x25) :
    percentDecode ((text.map byteOf).map g) = bytes := by
  induction h with
  | nil => rfl
  | @alone c b bytes text hc _ ih =>
      obtain ⟨hbyte, hne⟩ := halone c b hc
      rw [List.map_cons, List.map_cons, hbyte, percentDecode_cons hne, ih]
  | @escape high low m n bytes text hhigh hlow _ ih =>
      obtain ⟨hm, hhigh'⟩ := hhigh.hexByte?
      obtain ⟨hn, hlow'⟩ := hlow.hexByte?
      have hpair : hexPair? (byteOf high) (byteOf low) = some (UInt8.ofNat (m * 16 + n)) := by
        rw [hexPair?, hm, hn]
        rfl
      have hpercent : g (byteOf '%') = 0x25 := hg 0x25 (by decide)
      simp only [List.map_cons, hpercent, hg _ hhigh', hg _ hlow']
      rw [percentDecode_escape hpair, ih]

end Escaped

theorem forall_bne_of_not_mem {α : Type} [BEq α] [LawfulBEq α] {l : List α} {a : α}
    (h : a ∉ l) : ∀ b ∈ l, (b != a) = true := by
  intro b hb
  refine bne_iff_ne.mpr ?_
  rintro rfl
  exact h hb

/-- Of ASCII, a byte tells its character. -/
theorem byteOf_not_mem {text : List Char} (hascii : ∀ c ∈ text, c.toNat < 0x80) {divider : Char}
    (hdivider : divider.toNat < 0x80) (h : divider ∉ text) : byteOf divider ∉ text.map byteOf := by
  intro hmem
  obtain ⟨c, hc, heq⟩ := List.mem_map.mp hmem
  have hnat : (byteOf c).toNat = (byteOf divider).toNat := congrArg UInt8.toNat heq
  have hlt := hascii c hc
  rw [byteOf, byteOf, UInt8.toNat_ofNat', UInt8.toNat_ofNat', Nat.mod_eq_of_lt (by omega),
    Nat.mod_eq_of_lt (by omega)] at hnat
  have hchar : c = divider := by rw [← Char.ofNat_toNat c, hnat, Char.ofNat_toNat]
  exact h (hchar ▸ hc)

/-- The bytes of a text of ASCII. -/
theorem Utf8.encode_ofList {text : List Char} (h : ∀ c ∈ text, c.toNat < 0x80) :
    encode (String.ofList text) = text.map byteOf := by
  rw [encode, String.toList_ofList]
  induction text with
  | nil => rfl
  | cons c rest ih =>
      obtain ⟨hc, hrest⟩ := List.forall_mem_cons.mp h
      have hone : String.utf8EncodeChar c = [byteOf c] := if_pos (Nat.lt_succ_iff.mp hc)
      rw [List.flatMap_cons, hone, ih hrest]
      rfl

/-! ## Paths -/

/-- Letters, digits and marks that stand for themselves wherever they are. -/
def unreserved : List Char :=
  "ABCDEFGHIJKLMNOPQRSTUVWXYZabcdefghijklmnopqrstuvwxyz0123456789-._~".toList

/-- What may stand for itself in a segment of a path. -/
def segmentChars : List Char := unreserved ++ "!$&'()*+,;=:@".toList

def segmentByte? (c : Char) : Option UInt8 := if c ∈ segmentChars then some (byteOf c) else none

/-- A text as a segment of a path. -/
def SegmentSpelled (text raw : String) : Prop :=
  Escaped segmentByte? (Utf8.encode text) raw.toList

theorem segmentByte?_eq_some {c : Char} {b : UInt8} (h : segmentByte? c = some b) :
    c.toNat < 0x80 ∧ byteOf c = b ∧ b ≠ 0x25 := by
  have hchars : (segmentChars.all fun c => c.toNat < 0x80 && byteOf c != 0x25) = true := by
    decide +kernel
  rw [segmentByte?] at h
  split at h
  · rename_i hc
    obtain rfl := Option.some.inj h
    have hboth := List.all_eq_true.mp hchars c hc
    rw [Bool.and_eq_true, decide_eq_true_eq, bne_iff_ne] at hboth
    exact ⟨hboth.1, rfl, hboth.2⟩
  · cases h

/-- A segment is read as the text it was written for. -/
theorem SegmentSpelled.text? {text raw : String} (h : SegmentSpelled text raw) :
    Utf8.text? (percentDecode (Utf8.encode raw)) = some text := by
  have hascii := h.ascii fun c b hb => (segmentByte?_eq_some hb).1
  have hbytes := h.percentDecode_eq (g := id) (fun _ _ => rfl)
    fun c b hb => (segmentByte?_eq_some hb).2
  rw [List.map_id, ← Utf8.encode_ofList hascii, String.ofList_toList] at hbytes
  rw [hbytes, Utf8.text?_encode]

/-! ## Forms -/

namespace Form

/-- What may stand for itself in the names and values of a form. -/
def chars : List Char := unreserved ++ "!$'()*,;:@/?".toList

def byte? (c : Char) : Option UInt8 :=
  if c = '+' then some 0x20 else if c ∈ chars then some (byteOf c) else none

def PairSpelled (pair : String × String) (piece : List Char) : Prop :=
  ∃ name value, Escaped byte? (Utf8.encode pair.1) name ∧ Escaped byte? (Utf8.encode pair.2) value ∧
    piece = name ++ '=' :: value

/-- A form as a text: its pairs in their order, each in any of its spellings. -/
def Spelled (pairs : List (String × String)) (text : String) : Prop :=
  ∃ pieces, List.Forall₂ PairSpelled pairs pieces ∧
    text.toList = ['&'].intercalate pieces

theorem byte?_eq_some {c : Char} {b : UInt8} (h : byte? c = some b) :
    c.toNat < 0x80 ∧ (if byteOf c = 0x2B then 0x20 else byteOf c) = b ∧ b ≠ 0x25 := by
  have hchars : (chars.all fun c =>
      c.toNat < 0x80 && (byteOf c != 0x2B && byteOf c != 0x25)) = true := by
    decide +kernel
  rw [byte?] at h
  split_ifs at h with hplus hc
  · subst hplus
    obtain rfl := Option.some.inj h
    decide
  · obtain rfl := Option.some.inj h
    have hall := List.all_eq_true.mp hchars c hc
    rw [Bool.and_eq_true, Bool.and_eq_true, decide_eq_true_eq, bne_iff_ne, bne_iff_ne] at hall
    exact ⟨hall.1, if_neg hall.2.1, hall.2.2⟩

theorem ascii_of_escaped {bytes : List UInt8} {text : List Char} (h : Escaped byte? bytes text) :
    ∀ c ∈ text, c.toNat < 0x80 := h.ascii fun _ _ hb => (byte?_eq_some hb).1

theorem decodeBytes_of_escaped {s : String} {text : List Char}
    (h : Escaped byte? (Utf8.encode s) text) : decodeBytes (text.map byteOf) = s := by
  have hbytes := h.percentDecode_eq (g := fun b => if b = 0x2B then 0x20 else b)
    (fun _ hb => if_neg hb) fun c b hb => (byte?_eq_some hb).2
  rw [decodeBytes, hbytes, Utf8.textLossy_encode]

namespace PairSpelled

variable {pair : String × String} {piece : List Char}

theorem ascii (h : PairSpelled pair piece) : ∀ c ∈ piece, c.toNat < 0x80 := by
  obtain ⟨name, value, hname, hvalue, rfl⟩ := h
  simp only [List.forall_mem_append, List.forall_mem_cons]
  exact ⟨ascii_of_escaped hname, by decide, ascii_of_escaped hvalue⟩

theorem not_mem (h : PairSpelled pair piece) {divider : Char} (hdivider : divider ∈ dividers)
    (hnone : byte? divider = none) (hne : divider ≠ '=') : divider ∉ piece := by
  obtain ⟨name, value, hname, hvalue, rfl⟩ := h
  simp [hname.not_mem hdivider hnone, hvalue.not_mem hdivider hnone, hne]

theorem decodePair (h : PairSpelled pair piece) : decodePair (piece.map byteOf) = pair := by
  obtain ⟨name, value, hname, hvalue, rfl⟩ := h
  have hnot : byteOf '=' ∉ name.map byteOf :=
    byteOf_not_mem (ascii_of_escaped hname) (by decide) (hname.not_mem (by decide) (by decide))
  have hequals : ∀ b ∈ name.map byteOf, (b != 0x3D) = true := forall_bne_of_not_mem hnot
  have hstop : (byteOf '=' != 0x3D) = false := by decide
  rw [Form.decodePair, List.map_append, List.map_cons, List.takeWhile_append_of_pos hequals,
    List.dropWhile_append_of_pos hequals, List.takeWhile_cons, List.dropWhile_cons, hstop]
  simp [decodeBytes_of_escaped hname, decodeBytes_of_escaped hvalue]

end PairSpelled

theorem map_intercalate {α β : Type} (f : α → β) (sep : List α) (pieces : List (List α)) :
    (sep.intercalate pieces).map f = (sep.map f).intercalate (pieces.map (List.map f)) := by
  induction pieces with
  | nil => rfl
  | cons piece rest ih =>
      cases rest with
      | nil => simp
      | cons next rest => simp [ih]

theorem forall_mem_intercalate {α : Type} {P : α → Prop} {sep : List α} {pieces : List (List α)}
    (hsep : ∀ a ∈ sep, P a) (h : ∀ piece ∈ pieces, ∀ a ∈ piece, P a) :
    ∀ a ∈ sep.intercalate pieces, P a := by
  induction pieces with
  | nil => simp
  | cons piece rest ih =>
      obtain ⟨hpiece, hrest⟩ := List.forall_mem_cons.mp h
      cases rest with
      | nil => simpa using hpiece
      | cons next rest =>
          rw [List.intercalate_cons_cons]
          simp only [List.forall_mem_append]
          exact ⟨⟨hpiece, hsep⟩, ih hrest⟩

/-- What holds of all spellings of pairs holds of the pieces of a form. -/
theorem forall_mem_pieces {P : List Char → Prop} {pairs : List (String × String)}
    {pieces : List (List Char)} (h : List.Forall₂ PairSpelled pairs pieces)
    (hP : ∀ pair piece, PairSpelled pair piece → P piece) : ∀ piece ∈ pieces, P piece := by
  induction h with
  | nil => simp
  | cons hpiece _ ih => exact List.forall_mem_cons.mpr ⟨hP _ _ hpiece, ih⟩

theorem map_decodePair {pairs : List (String × String)} {pieces : List (List Char)}
    (h : List.Forall₂ PairSpelled pairs pieces) :
    ((pieces.map (List.map byteOf)).filter (!·.isEmpty)).map Form.decodePair = pairs := by
  induction h with
  | nil => rfl
  | @cons pair piece pairs pieces hpiece _ ih =>
      have hne : (!(piece.map byteOf).isEmpty) = true := by
        obtain ⟨name, value, _, _, rfl⟩ := hpiece
        simp
      simp only [List.map_cons, List.filter_cons, hne, if_true, hpiece.decodePair, ih]

namespace Spelled

variable {pairs : List (String × String)} {text : String}

theorem ascii (h : Spelled pairs text) : ∀ c ∈ text.toList, c.toNat < 0x80 := by
  obtain ⟨pieces, hpieces, htext⟩ := h
  rw [htext]
  exact forall_mem_intercalate (by simp) (forall_mem_pieces hpieces fun _ _ hp => hp.ascii)

/-- What divides targets does not occur in a form, unless it may stand alone there. -/
theorem not_mem (h : Spelled pairs text) {divider : Char} (hdivider : divider ∈ dividers)
    (hnone : byte? divider = none) (hequals : divider ≠ '=') (hand : divider ≠ '&') :
    divider ∉ text.toList := by
  obtain ⟨pieces, hpieces, htext⟩ := h
  have hmem : ∀ c ∈ ['&'].intercalate pieces, c ≠ divider := by
    apply forall_mem_intercalate
    · simpa using hand.symm
    · refine forall_mem_pieces hpieces fun pair piece hpiece c hc => ?_
      rintro rfl
      exact hpiece.not_mem hdivider hnone hequals hc
  rw [htext]
  exact fun hin => hmem divider hin rfl

/-- A form is read as its pairs, however they are written. -/
theorem decode (h : Spelled pairs text) : decode text = pairs := by
  have hbytes : Utf8.encode text = text.toList.map byteOf := by
    rw [← Utf8.encode_ofList h.ascii, String.ofList_toList]
  obtain ⟨pieces, hpieces, htext⟩ := h
  by_cases hnil : pieces = []
  · subst hnil
    obtain rfl := List.forall₂_nil_right_iff.mp hpieces
    obtain rfl : text = "" := String.toList_eq_nil_iff.mp htext
    rfl
  · have hunseparated : ∀ piece ∈ pieces, byteOf '&' ∉ piece.map byteOf := by
      refine forall_mem_pieces hpieces fun _ _ hp => byteOf_not_mem hp.ascii (by decide) ?_
      exact hp.not_mem (by decide) (by decide) (by decide)
    have hsplit : (Utf8.encode text).splitOn 0x26 = pieces.map (List.map byteOf) := by
      rw [hbytes, htext, map_intercalate]
      exact List.splitOn_intercalate (byteOf '&') (List.forall_mem_map.mpr hunseparated)
        (by simpa using hnil)
    rw [Form.decode, hsplit, map_decodePair hpieces]

end Spelled

/-- The text of a form is one of its spellings. -/
theorem escaped_encodeText (s : String) : Escaped byte? (Utf8.encode s) (encodeText s) := by
  have hplain : ∀ n < 256, isPlain (UInt8.ofNat n) = true →
      byte? (Char.ofNat n) = some (UInt8.ofNat n) := by decide +kernel
  rw [encodeText]
  induction Utf8.encode s with
  | nil => exact .nil
  | cons b rest ih =>
      have hb : UInt8.ofNat b.toNat = b := UInt8.ofNat_toNat
      have hlt : b.toNat < 256 := b.toNat_lt
      rw [List.flatMap_cons, encodeByte]
      split_ifs with hp hspace
      · refine .alone ?_ ih
        rw [hplain b.toNat hlt (by rwa [hb]), hb]
      · obtain rfl : b = 0x20 := by simpa using hspace
        exact .alone (by decide) ih
      · have hdigits : UInt8.ofNat (b.toNat / 16 * 16 + b.toNat % 16) = b := by
          rw [Nat.div_add_mod', hb]
        have hescape := Escaped.escape (isHexDigit_hexDigit (n := b.toNat / 16) (by omega))
          (isHexDigit_hexDigit (n := b.toNat % 16) (by omega)) ih
        rwa [hdigits] at hescape

theorem spelled_encode (pairs : List (String × String)) : Spelled pairs (encode pairs) := by
  refine ⟨pairs.map encodePair, ?_, by rw [encode, String.toList_ofList]⟩
  apply List.forall₂_map_right_iff.mpr
  apply List.forall₂_same.mpr
  intro pair _
  exact ⟨_, _, escaped_encodeText pair.1, escaped_encodeText pair.2, rfl⟩

theorem decode_encode (pairs : List (String × String)) : decode (encode pairs) = pairs :=
  (spelled_encode pairs).decode

end Form

end ServiceDirectory.Text

import ServiceDirectory.Text.Utf8

/-!
# UTF-8 is read as it was written

The bytes of a character are read as that character: the leading byte fixes how
many are due and which may come first, and overlong forms and surrogates, which
it excludes, are never written.
-/

namespace ServiceDirectory.Text.Utf8

/-! ## Bytes -/

theorem read_ascii {n : Nat} (h : n < 0x80) (rest : List UInt8) :
    read none (UInt8.ofNat n :: rest) = some (Char.ofNat n) :: read none rest := by
  have hbyte : ∀ n < 0x80, UInt8.ofNat n < 0x80 ∧ (UInt8.ofNat n).toNat = n := by decide
  obtain ⟨hlt, hn⟩ := hbyte n h
  simp [read, begin, hlt, hn]

/-- A leading byte begins a character with the bits that it carries. -/
theorem read_lead {n base due : Nat} {low high : UInt8} (hbase : ¬ UInt8.ofNat (n + base) < 0x80)
    (hlead : lead (UInt8.ofNat (n + base)) = some (due, low, high))
    (hbits : leadBits (UInt8.ofNat (n + base)) = n) (rest : List UInt8) :
    read none (UInt8.ofNat (n + base) :: rest) = read (some ⟨n, due, low, high⟩) rest := by
  simp only [read, begin, if_neg hbase, hlead, hbits, List.nil_append]

theorem read_leadOfTwo {n : Nat} (hlow : 2 ≤ n) (h : n < 32) (rest : List UInt8) :
    read none (UInt8.ofNat (n + 0xc0) :: rest) = read (some ⟨n, 1, 0x80, 0xBF⟩) rest := by
  have hbyte : ∀ n < 32, 2 ≤ n → ¬ UInt8.ofNat (n + 0xc0) < 0x80 ∧
      lead (UInt8.ofNat (n + 0xc0)) = some (1, 0x80, 0xBF) ∧
      leadBits (UInt8.ofNat (n + 0xc0)) = n := by decide
  obtain ⟨hbase, hlead, hbits⟩ := hbyte n h hlow
  exact read_lead hbase hlead hbits rest

theorem read_leadOfThree {n : Nat} (h : n < 16) (rest : List UInt8) :
    read none (UInt8.ofNat (n + 0xe0) :: rest) =
      read (some ⟨n, 2, if n = 0 then 0xA0 else 0x80, if n = 13 then 0x9F else 0xBF⟩) rest := by
  have hbyte : ∀ n < 16, ¬ UInt8.ofNat (n + 0xe0) < 0x80 ∧
      lead (UInt8.ofNat (n + 0xe0)) =
        some (2, if n = 0 then 0xA0 else 0x80, if n = 13 then 0x9F else 0xBF) ∧
      leadBits (UInt8.ofNat (n + 0xe0)) = n := by decide
  obtain ⟨hbase, hlead, hbits⟩ := hbyte n h
  exact read_lead hbase hlead hbits rest

theorem read_leadOfFour {n : Nat} (h : n < 5) (rest : List UInt8) :
    read none (UInt8.ofNat (n + 0xf0) :: rest) =
      read (some ⟨n, 3, if n = 0 then 0x90 else 0x80, if n = 4 then 0x8F else 0xBF⟩) rest := by
  have hbyte : ∀ n < 5, ¬ UInt8.ofNat (n + 0xf0) < 0x80 ∧
      lead (UInt8.ofNat (n + 0xf0)) =
        some (3, if n = 0 then 0x90 else 0x80, if n = 4 then 0x8F else 0xBF) ∧
      leadBits (UInt8.ofNat (n + 0xf0)) = n := by decide
  obtain ⟨hbase, hlead, hbits⟩ := hbyte n h
  exact read_lead hbase hlead hbits rest

/-- A byte within the range of a pending character adds its bits. -/
theorem resume_tail {n : Nat} (h : n < 0x40) {low high : UInt8}
    (hlow : low ≤ UInt8.ofNat (n + 0x80)) (hhigh : UInt8.ofNat (n + 0x80) ≤ high)
    (bits due : Nat) :
    resume ⟨bits, due, low, high⟩ (UInt8.ofNat (n + 0x80)) =
      if due ≤ 1 then ([some (Char.ofNat (bits * 0x40 + n))], none)
      else ([], some ⟨bits * 0x40 + n, due - 1, 0x80, 0xBF⟩) := by
  have hall : ∀ n < 0x40, tailBits (UInt8.ofNat (n + 0x80)) = n := by decide
  have hbits := hall n h
  generalize UInt8.ofNat (n + 0x80) = b at hlow hhigh hbits ⊢
  simp [resume, hlow, hhigh, hbits]

theorem read_last {n : Nat} (h : n < 0x40) {low high : UInt8}
    (hlow : low ≤ UInt8.ofNat (n + 0x80)) (hhigh : UInt8.ofNat (n + 0x80) ≤ high) (bits : Nat)
    (rest : List UInt8) :
    read (some ⟨bits, 1, low, high⟩) (UInt8.ofNat (n + 0x80) :: rest) =
      some (Char.ofNat (bits * 0x40 + n)) :: read none rest := by
  rw [read, resume_tail h hlow hhigh]
  rfl

theorem read_tail {n : Nat} (h : n < 0x40) {low high : UInt8}
    (hlow : low ≤ UInt8.ofNat (n + 0x80)) (hhigh : UInt8.ofNat (n + 0x80) ≤ high)
    (bits due : Nat) (rest : List UInt8) :
    read (some ⟨bits, due + 2, low, high⟩) (UInt8.ofNat (n + 0x80) :: rest) =
      read (some ⟨bits * 0x40 + n, due + 1, 0x80, 0xBF⟩) rest := by
  rw [read, resume_tail h hlow hhigh, if_neg (by omega)]
  rfl

theorem le_tail {n m : Nat} (hn : n < 0x40) (h : m ≤ n + 0x80) :
    UInt8.ofNat m ≤ UInt8.ofNat (n + 0x80) := by
  rw [UInt8.le_iff_toNat_le, UInt8.toNat_ofNat', UInt8.toNat_ofNat']
  omega

theorem tail_le {n m : Nat} (h : n + 0x80 ≤ m) (hm : m < 0x100) :
    UInt8.ofNat (n + 0x80) ≤ UInt8.ofNat m := by
  rw [UInt8.le_iff_toNat_le, UInt8.toNat_ofNat', UInt8.toNat_ofNat']
  omega

/-- Every byte that carries six bits may continue a character. -/
theorem tail_range {n : Nat} (h : n < 0x40) :
    0x80 ≤ UInt8.ofNat (n + 0x80) ∧ UInt8.ofNat (n + 0x80) ≤ 0xBF :=
  ⟨le_tail (m := 0x80) h (by omega), tail_le (m := 0xBF) (by omega) (by decide)⟩

/-! ## Characters -/

section Lengths

variable {v : Nat} (rest : List UInt8)

theorem read_two (hlow : 0x7f < v) (hhigh : v ≤ 0x7ff) :
    read none (UInt8.ofNat (v / 64 % 0x20 + 0xc0) :: UInt8.ofNat (v % 0x40 + 0x80) :: rest) =
      some (Char.ofNat v) :: read none rest := by
  have hlead : v / 64 % 0x20 = v / 64 := by omega
  obtain ⟨hle, hge⟩ := tail_range (n := v % 0x40) (by omega)
  have hbits : v / 64 * 0x40 + v % 0x40 = v := by omega
  rw [hlead, read_leadOfTwo (by omega) (by omega), read_last (by omega) hle hge, hbits]

/-- The second byte is neither of an overlong form nor of a surrogate. -/
theorem read_three (hlow : 0x7ff < v) (hhigh : v ≤ 0xffff)
    (hvalid : v < 0xd800 ∨ 0xdfff < v) :
    read none (UInt8.ofNat (v / 4096 % 0x10 + 0xe0) :: UInt8.ofNat (v / 64 % 0x40 + 0x80) ::
        UInt8.ofNat (v % 0x40 + 0x80) :: rest) = some (Char.ofNat v) :: read none rest := by
  have hlead : v / 4096 % 0x10 = v / 4096 := by omega
  have hle : (if v / 4096 = 0 then 0xA0 else 0x80) ≤ UInt8.ofNat (v / 64 % 0x40 + 0x80) := by
    split
    · exact le_tail (m := 0xA0) (by omega) (by omega)
    · exact (tail_range (by omega)).1
  have hge : UInt8.ofNat (v / 64 % 0x40 + 0x80) ≤ (if v / 4096 = 13 then 0x9F else 0xBF) := by
    split
    · exact tail_le (m := 0x9F) (by omega) (by decide)
    · exact (tail_range (by omega)).2
  obtain ⟨hle', hge'⟩ := tail_range (n := v % 0x40) (by omega)
  have hbits : (v / 4096 * 0x40 + v / 64 % 0x40) * 0x40 + v % 0x40 = v := by omega
  rw [hlead, read_leadOfThree (by omega), read_tail (by omega) hle hge _ 0,
    read_last (by omega) hle' hge', hbits]

/-- The second byte is neither of an overlong form nor beyond the last character. -/
theorem read_four (hlow : 0xffff < v) (hhigh : v < 0x110000) :
    read none (UInt8.ofNat (v / 262144 % 0x08 + 0xf0) :: UInt8.ofNat (v / 4096 % 0x40 + 0x80) ::
        UInt8.ofNat (v / 64 % 0x40 + 0x80) :: UInt8.ofNat (v % 0x40 + 0x80) :: rest) =
      some (Char.ofNat v) :: read none rest := by
  have hlead : v / 262144 % 0x08 = v / 262144 := by omega
  have hle : (if v / 262144 = 0 then 0x90 else 0x80) ≤ UInt8.ofNat (v / 4096 % 0x40 + 0x80) := by
    split
    · exact le_tail (m := 0x90) (by omega) (by omega)
    · exact (tail_range (by omega)).1
  have hge : UInt8.ofNat (v / 4096 % 0x40 + 0x80) ≤ (if v / 262144 = 4 then 0x8F else 0xBF) := by
    split
    · exact tail_le (m := 0x8F) (by omega) (by decide)
    · exact (tail_range (by omega)).2
  obtain ⟨hle', hge'⟩ := tail_range (n := v / 64 % 0x40) (by omega)
  obtain ⟨hle'', hge''⟩ := tail_range (n := v % 0x40) (by omega)
  have hbits : ((v / 262144 * 0x40 + v / 4096 % 0x40) * 0x40 + v / 64 % 0x40) * 0x40 +
      v % 0x40 = v := by omega
  rw [hlead, read_leadOfFour (by omega), read_tail (by omega) hle hge _ 1,
    read_tail (by omega) hle' hge' _ 0, read_last (by omega) hle'' hge'', hbits]

end Lengths

theorem read_char (c : Char) (rest : List UInt8) :
    read none (String.utf8EncodeChar c ++ rest) = some c :: read none rest := by
  have hvalid : c.val.toNat < 0xd800 ∨ 0xdfff < c.val.toNat ∧ c.val.toNat < 0x110000 := c.valid
  have hchar : Char.ofNat c.val.toNat = c := Char.ofNat_toNat c
  simp only [String.utf8EncodeChar]
  split
  · rw [List.cons_append, List.nil_append, read_ascii (by omega), hchar]
  · split
    · exact (read_two rest (by omega) (by omega)).trans (by rw [hchar])
    · split
      · exact (read_three rest (by omega) (by omega) (by omega)).trans (by rw [hchar])
      · exact (read_four rest (by omega) (by omega)).trans (by rw [hchar])

/-- The bytes of a text are read as its characters. -/
theorem decode_encode (s : String) : decode (encode s) = symbols s := by
  rw [decode, encode, symbols]
  induction s.toList with
  | nil => rfl
  | cons c rest ih => rw [List.flatMap_cons, read_char, ih, List.map_cons]

theorem text?_encode (s : String) : text? (encode s) = some s := by
  have hall : ∀ l : List Char, (l.map some).mapM (id : Symbol → Option Char) = some l := by
    intro l
    induction l with
    | nil => rfl
    | cons c rest ih => simp [ih]
  rw [text?, decode_encode, ofSymbols?, symbols, hall]
  simp

theorem textLossy_encode (s : String) : textLossy (encode s) = s := by
  rw [textLossy, decode_encode, ofSymbolsLossy, symbols, List.map_map]
  have hid : ((·.getD '\uFFFD') ∘ some : Char → Char) = id := rfl
  rw [hid, List.map_id, String.ofList_toList]

end ServiceDirectory.Text.Utf8

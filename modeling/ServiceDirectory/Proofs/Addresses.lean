import ServiceDirectory.Backend.Url
import ServiceDirectory.Proofs.Interface

/-!
# Addresses without a query

An address in which no question mark occurs is read as one without a query, and no
segment of its path holds a mark that would end the path. So a form that is put to it
is all there is behind the question mark of its target, and is cut off from there as
it is. Whether an address can be asked is settled in front of its path.
-/

namespace ServiceDirectory.Url

open Text

/-! ## Marks in paths -/

theorem not_mem_escapeByte {mark : Char} (h : mark ∈ dividers) (b : UInt8) :
    mark ∉ escapeByte b := by
  have hlt : b.toNat < 256 := b.toNat_lt
  have hhigh := (isHexDigit_hexDigit (n := b.toNat / 16) (by omega)).ascii.2
  have hlow := (isHexDigit_hexDigit (n := b.toNat % 16) (by omega)).ascii.2
  have hpercent : '%' ∉ dividers := by decide
  simp only [escapeByte, List.mem_cons, List.not_mem_nil, or_false]
  rintro (rfl | rfl | rfl)
  · exact hpercent h
  · exact hhigh h
  · exact hlow h

theorem not_mem_escapeChar {special : List Char} {mark : Char} (hmark : mark ∈ dividers)
    (hspecial : mark ∈ special) (c : Char) : mark ∉ escapeChar special c := by
  rw [escapeChar]
  split_ifs with hc
  · intro hmem
    obtain ⟨b, _, hb⟩ := List.mem_flatMap.mp hmem
    exact not_mem_escapeByte hmark b hb
  · intro hmem
    obtain rfl := List.mem_singleton.mp hmem
    exact hc (.inr (.inr (List.contains_iff_mem.mpr hspecial)))

/-- A text in which no mark ends a path. -/
def IsClear (text : String) : Prop := '?' ∉ text.toList ∧ '#' ∉ text.toList

theorem isClear_escapePath (text : List Char) : IsClear (escapePath text) := by
  rw [IsClear, escapePath, String.toList_ofList]
  constructor
  · intro h
    obtain ⟨c, _, hc⟩ := List.mem_flatMap.mp h
    exact not_mem_escapeChar (by decide) (by decide) c hc
  · intro h
    obtain ⟨c, _, hc⟩ := List.mem_flatMap.mp h
    exact not_mem_escapeChar (by decide) (by decide) c hc

section Clear

variable {path : List String}

theorem isClear_push (h : ∀ segment ∈ path, IsClear segment) (segment : List Char) (more : Bool) :
    ∀ s ∈ push path segment more, IsClear s := by
  have hfewer : ∀ s ∈ path.dropLast, IsClear s := fun s hs =>
    h s (List.dropLast_subset path hs)
  have hempty : IsClear "" := ⟨by decide, by decide⟩
  simp only [push]
  split_ifs
  · exact hfewer
  · exact List.forall_mem_append.mpr ⟨hfewer, List.forall_mem_singleton.mpr hempty⟩
  · exact h
  · exact List.forall_mem_append.mpr ⟨h, List.forall_mem_singleton.mpr hempty⟩
  · exact List.forall_mem_append.mpr
      ⟨h, List.forall_mem_singleton.mpr (isClear_escapePath segment)⟩

theorem isClear_pushAll (h : ∀ segment ∈ path, IsClear segment) (segments : List (List Char)) :
    ∀ s ∈ pushAll path segments, IsClear s := by
  induction segments generalizing path with
  | nil => exact h
  | cons segment rest ih =>
      cases rest with
      | nil => exact isClear_push h segment false
      | cons next rest => exact ih (isClear_push h segment true)

end Clear

/-! ## Reading -/

variable {names : HostNames}

/-- An address without a query, whose path ends where it is written to end. -/
structure IsBare (url : Url) : Prop where
  noQuery : url.query = none
  segments : ∀ segment ∈ url.path, IsClear segment

theorem splitQuery_eq {text : List Char} (h : '?' ∉ text) : splitQuery text = (text, none) := by
  have hnone : text.dropWhile (· != '?') = [] :=
    List.dropWhile_eq_nil_iff.mpr (forall_bne_of_not_mem h)
  rw [splitQuery, hnone]

theorem isBare_of_absolute? {isSecure : Bool} {text : List Char} {url : Url} (h : '?' ∉ text)
    (hread : absolute? names isSecure text = some url) : url.IsBare := by
  simp only [absolute?, Option.bind_eq_bind, Option.bind_eq_some_iff] at hread
  obtain ⟨⟨host, port⟩, _, hread⟩ := hread
  have hrest : '?' ∉ (text.dropWhile isSlash).dropWhile fun c => !(isSlash c || c == '?') :=
    fun hmem => h (List.dropWhile_subset _ (List.dropWhile_subset _ hmem))
  rw [splitQuery_eq hrest] at hread
  obtain rfl := Option.some.inj hread
  exact ⟨rfl, isClear_pushAll (by simp) _⟩

theorem mem_of_mem_clean {text : String} {c : Char} (h : c ∈ clean text) : c ∈ text.toList := by
  have htrimmed := (List.mem_filter.mp (List.takeWhile_subset _ h)).1
  have hstarted := List.dropWhile_subset _ (List.mem_reverse.mp htrimmed)
  exact List.dropWhile_subset _ (List.mem_reverse.mp hstarted)

theorem mem_of_mem_scheme? {text rest : List Char} {scheme : String}
    (h : scheme? text = some (scheme, rest)) {c : Char} (hc : c ∈ rest) : c ∈ text := by
  simp only [scheme?] at h
  split at h
  · rename_i first tail hname hdrop
    split at h
    · obtain ⟨-, rfl⟩ := Prod.mk.inj (Option.some.inj h)
      apply List.drop_subset _ text
      rw [hdrop]
      exact List.mem_cons_of_mem _ hc
    · cases h
  · cases h

/-- What is read without another address is read behind its scheme. -/
theorem resolve?_none_eq_web_iff {text : String} {url : Url} :
    resolve? names none text = some (.web url) ↔
      ∃ scheme rest, scheme? (clean text) = some (scheme, rest) ∧
        (scheme = "http" ∨ scheme = "https") ∧
        absolute? names (scheme == "https") rest = some url := by
  simp only [resolve?]
  cases hscheme : scheme? (clean text) with
  | none => simp
  | some split =>
      obtain ⟨scheme, rest⟩ := split
      by_cases hweb : scheme = "http" ∨ scheme = "https"
      · simp [hweb]
      · simp [hweb]

theorem isBare_of_resolve? {text : String} {url : Url} (h : '?' ∉ text.toList)
    (hread : resolve? names none text = some (.web url)) : url.IsBare := by
  obtain ⟨scheme, rest, hscheme, -, habsolute⟩ := resolve?_none_eq_web_iff.mp hread
  exact isBare_of_absolute? (fun hmem => h (mem_of_mem_clean (mem_of_mem_scheme? hscheme hmem)))
    habsolute

/-! ## Targets -/

theorem IsBare.isPath {url : Url} (h : url.IsBare) : Api.IsPath url.target := by
  have htarget : url.target =
      String.ofList ('/' :: ['/'].intercalate (url.path.map String.toList)) := by
    rw [target, h.noQuery]
  have hclear : ∀ mark : Char, mark ≠ '/' → (∀ segment ∈ url.path, mark ∉ segment.toList) →
      mark ∉ url.target.toList := by
    intro mark hslash hsegments
    rw [htarget, String.toList_ofList, List.mem_cons, not_or]
    refine ⟨hslash, fun hmem => ?_⟩
    have hne : ∀ c ∈ ['/'].intercalate (url.path.map String.toList), c ≠ mark := by
      apply Form.forall_mem_intercalate
      · simpa using hslash.symm
      · refine List.forall_mem_map.mpr fun segment hsegment c hc => ?_
        rintro rfl
        exact hsegments segment hsegment hc
    exact hne mark hmem rfl
  constructor
  · rw [htarget, String.toList_ofList]
    rfl
  · exact hclear '?' (by decide) fun segment hsegment => (h.segments segment hsegment).1
  · exact hclear '#' (by decide) fun segment hsegment => (h.segments segment hsegment).2

theorem encode_ne_empty {pairs : List (String × String)} (h : pairs ≠ []) :
    Form.encode pairs ≠ "" := by
  intro hempty
  have hdecode := Form.decode_encode pairs
  rw [hempty] at hdecode
  exact h hdecode.symm

/-- A form put to a bare address is what stands behind the question mark of its target. -/
theorem IsBare.target_withForm {url : Url} (h : url.IsBare) {pairs : List (String × String)}
    (hpairs : pairs ≠ []) :
    (url.withForm pairs).target = url.target ++ "?" ++ Form.encode pairs := by
  have hform : (Form.encode pairs).isEmpty = false := by
    simpa using encode_ne_empty hpairs
  simp only [target, withForm, h.noQuery, hform, Bool.false_eq_true, if_false]

theorem IsBare.ofString_withForm {url : Url} (h : url.IsBare) {pairs : List (String × String)}
    (hpairs : pairs ≠ []) :
    Api.Target.ofString (url.withForm pairs).target = ⟨url.target, Form.encode pairs⟩ := by
  rw [h.target_withForm hpairs]
  exact Api.Target.ofString_eq h.isPath
    ((Form.spelled_encode pairs).not_mem (by decide) (by decide) (by decide) (by decide))

/-! ## Paths behind an address -/

/-- A path that is put behind the text of an address: it begins with a segment and a slash. -/
structure Continues (segment path : List Char) : Prop where
  start : ∃ tail, path = '/' :: segment ++ '/' :: tail
  stays : ∀ c ∈ path, isControlOrSpace c = false ∧ c ≠ '#'

section Cut

variable {p : Char → Bool}

theorem dropWhile_append_of_exists {l : List Char} (h : ∃ c ∈ l, p c = false) (rest : List Char) :
    (l ++ rest).dropWhile p = l.dropWhile p ++ rest := by
  rw [List.dropWhile_append, if_neg]
  rw [List.isEmpty_iff, List.dropWhile_eq_nil_iff]
  intro hall
  obtain ⟨c, hc, hfalse⟩ := h
  rw [hall c hc] at hfalse
  cases hfalse

theorem takeWhile_append_cons (l : List Char) {c : Char} (h : p c = false) (rest : List Char) :
    (l ++ c :: rest).takeWhile p = l.takeWhile p := by
  rw [List.takeWhile_append]
  split_ifs with hall
  · rw [List.takeWhile_cons_of_neg (by simp [h]), List.append_nil,
      (List.takeWhile_prefix p).eq_of_length hall]
  · rfl

end Cut

/-- What is kept of the text of an address that goes on: no blanks in front, and no line ends. -/
def opening (base : String) : List Char :=
  (base.toList.dropWhile isControlOrSpace).filter fun c => c != '\t' && c != '\n' && c != '\r'

theorem clean_append {base path : String} {segment : List Char} (hbase : '#' ∉ base.toList)
    (hpath : Continues segment path.toList) :
    clean (base ++ path) = opening base ++ path.toList := by
  obtain ⟨⟨tail, hstart⟩, hstays⟩ := hpath
  have hfront : (base ++ path).toList.dropWhile isControlOrSpace =
      base.toList.dropWhile isControlOrSpace ++ path.toList := by
    rw [String.toList_append, List.dropWhile_append]
    split_ifs with hnone
    · rw [List.isEmpty_iff.mp hnone, hstart]
      exact List.dropWhile_cons_of_neg (by decide)
    · rfl
  -- The last character of the path is no blank, so nothing is cut off at the end.
  obtain ⟨last, front, hlast⟩ : ∃ last front, path.toList.reverse = last :: front := by
    apply List.exists_cons_of_ne_nil
    rw [hstart]
    simp
  have hend (start : List Char) : (start ++ path.toList).reverse.dropWhile isControlOrSpace =
      (start ++ path.toList).reverse := by
    have hmem : last ∈ path.toList := List.mem_reverse.mp (by simp [hlast])
    rw [List.reverse_append, hlast]
    exact List.dropWhile_cons_of_neg (by simp [(hstays last hmem).1])
  have hinside :
      (path.toList.filter fun c => c != '\t' && c != '\n' && c != '\r') = path.toList := by
    apply List.filter_eq_self.mpr
    intro c hc
    have hvisible := (hstays c hc).1
    simp only [Bool.and_eq_true, bne_iff_ne]
    refine ⟨⟨?_, ?_⟩, ?_⟩ <;>
      · rintro rfl
        revert hvisible
        decide
  have hnone : '#' ∉ opening base ++ path.toList := by
    intro hmem
    rcases List.mem_append.mp hmem with hmem | hmem
    · exact hbase (List.dropWhile_subset _ (List.mem_filter.mp hmem).1)
    · exact (hstays _ hmem).2 rfl
  rw [clean, hfront]
  rw [hend, List.reverse_reverse, List.filter_append, hinside]
  exact List.takeWhile_eq_self_iff.mpr (forall_bne_of_not_mem hnone)

/-- A path has no part in the scheme. -/
theorem scheme?_append (text rest : List Char) :
    scheme? (text ++ '/' :: rest) =
      (scheme? text).map fun cut => (cut.1, cut.2 ++ '/' :: rest) := by
  have hname := takeWhile_append_cons
    (p := fun c => c.isAlphanum || c == '+' || c == '-' || c == '.') text (c := '/')
    (by decide) rest
  have hlength := (List.takeWhile_sublist (l := text)
    fun c => c.isAlphanum || c == '+' || c == '-' || c == '.').length_le
  simp only [scheme?]
  rw [hname, List.drop_append_of_le_length hlength]
  cases (text.takeWhile fun c => c.isAlphanum || c == '+' || c == '-' || c == '.').head? with
  | none => rfl
  | some first =>
      cases text.drop (text.takeWhile fun c =>
          c.isAlphanum || c == '+' || c == '-' || c == '.').length with
      | nil => rfl
      | cons c more =>
          by_cases hcolon : c = ':'
          · subst hcolon
            by_cases halpha : first.isAlpha <;> simp [halpha]
          · simp [hcolon]

/-- The text that says which host is meant. -/
def authorityText (text : List Char) : List Char :=
  (text.dropWhile isSlash).takeWhile fun c => !(isSlash c || c == '?')

theorem isSome_absolute? (isSecure : Bool) (text : List Char) :
    (absolute? names isSecure text).isSome =
      (authority? names isSecure (authorityText text)).isSome := by
  simp only [absolute?, Option.bind_eq_bind, authorityText]
  cases authority? names isSecure
      ((text.dropWhile isSlash).takeWhile fun c => !(isSlash c || c == '?')) <;> rfl

theorem authorityText_append {text : List Char} (h : ∃ c ∈ text, isSlash c = false)
    (rest : List Char) : authorityText (text ++ '/' :: rest) = authorityText text := by
  rw [authorityText, dropWhile_append_of_exists h]
  exact takeWhile_append_cons _ (by decide) rest

/-- Whether an address can be asked is settled up to the first segment of the path. -/
theorem exists_web_iff {base path : String} {segment : List Char} (hbase : '#' ∉ base.toList)
    (hpath : Continues segment path.toList) (hsegment : ∃ c ∈ segment, isSlash c = false) :
    (∃ url, resolve? names none (base ++ path) = some (.web url)) ↔
      ∃ scheme rest, scheme? (opening base) = some (scheme, rest) ∧
        (scheme = "http" ∨ scheme = "https") ∧
        (authority? names (scheme == "https")
          (authorityText (rest ++ '/' :: segment))).isSome := by
  have hclean := clean_append hbase hpath
  obtain ⟨tail, hstart⟩ := hpath.start
  have hscheme : scheme? (clean (base ++ path)) =
      (scheme? (opening base)).map fun cut => (cut.1, cut.2 ++ path.toList) := by
    rw [hclean, hstart]
    exact scheme?_append _ _
  have hhost : ∀ isSecure rest, (absolute? names isSecure (rest ++ path.toList)).isSome =
      (authority? names isSecure (authorityText (rest ++ '/' :: segment))).isSome := by
    intro isSecure rest
    obtain ⟨c, hc, hfalse⟩ := hsegment
    have hname : ∃ c ∈ rest ++ '/' :: segment, isSlash c = false := ⟨c, by simp [hc], hfalse⟩
    rw [isSome_absolute?, hstart, ← List.append_assoc, authorityText_append hname]
  simp only [resolve?_none_eq_web_iff, hscheme, Option.map_eq_some_iff, Prod.mk.injEq]
  constructor
  · rintro ⟨url, _, _, ⟨⟨scheme, rest⟩, hcut, rfl, rfl⟩, hweb, hread⟩
    refine ⟨scheme, rest, hcut, hweb, ?_⟩
    rw [← hhost, hread]
    rfl
  · rintro ⟨scheme, rest, hcut, hweb, hsome⟩
    rw [← hhost] at hsome
    obtain ⟨url, hread⟩ := Option.isSome_iff_exists.mp hsome
    exact ⟨url, scheme, _, ⟨(scheme, rest), hcut, rfl, rfl⟩, hweb, hread⟩

end ServiceDirectory.Url

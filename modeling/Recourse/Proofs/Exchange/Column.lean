import Mathlib.Data.List.GetD
import Mathlib.Data.List.TakeWhile
import Recourse.Exchange.CutFiles
import Recourse.Proofs.Exchange.Csv

/-! Columns of numbers, written and read back. The texts of whole numbers are read as what they are;
for those of other numbers this is what a number has to bring along. A table that has one column of
other numbers comes back as numbers throughout. -/

namespace Recourse.Exchange

open Csv (Faithful)

variable {α : Type}

/-! ### Whole numbers -/

def isWholeText (cs : List Char) : Bool :=
  let digits := if cs.head? = some '-' then cs.tail else cs
  !digits.isEmpty && digits.all Char.isDigit

theorem toList_toString (n : ℤ) : (toString n).toList =
    if 0 ≤ n then Nat.toDigits 10 n.natAbs else '-' :: Nat.toDigits 10 n.natAbs := by
  rw [Int.toString_eq_repr, Int.repr_eq_if]
  split_ifs with hn
  · rw [Nat.toList_repr]
    congr 1
    omega
  · have hminus : "-".toList = ['-'] := rfl
    rw [String.toList_append, hminus, Nat.toList_repr, List.singleton_append]
    congr 2
    omega

/-- The digits of a number, none of which is mistaken for another sign. -/
theorem toDigits_cases (n : ℕ) : ∃ c cs, Nat.toDigits 10 n = c :: cs ∧ c.isDigit = true ∧
    (∀ d ∈ c :: cs, d.isDigit = true) ∧ c ≠ '-' ∧ c ≠ '+' ∧ isBlank c = false := by
  have hdigits : ∀ d ∈ Nat.toDigits 10 n,
      d.isDigit = true := fun d hd => Nat.isDigit_of_mem_toDigits (by omega) (by omega) hd
  obtain ⟨c, cs, hcs⟩ := List.exists_cons_of_ne_nil (Nat.toDigits_ne_nil (n := n) (b := 10))
  rw [hcs] at hdigits
  have hc := hdigits c List.mem_cons_self
  refine ⟨c, cs, hcs, hc, hdigits, ?_, ?_, ?_⟩
  · rintro rfl
    exact absurd hc (by decide)
  · rintro rfl
    exact absurd hc (by decide)
  · have hspace : c ≠ ' ' := by
      rintro rfl
      exact absurd hc (by decide)
    have hlow : 48 ≤ c.toNat := by
      simp only [Char.isDigit, Bool.and_eq_true, decide_eq_true_eq] at hc
      exact hc.1
    have hcontrol : ¬ c.toNat ≤ 13 := by omega
    simp [isBlank, hspace, hcontrol]

theorem isWholeText_toString (n : ℤ) : isWholeText (toString n).toList = true := by
  obtain ⟨c, cs, hcs, -, hdigits, hminus, -⟩ := toDigits_cases n.natAbs
  rw [toList_toString, hcs]
  split_ifs
  · simpa [isWholeText, hminus] using hdigits
  · simpa [isWholeText] using hdigits

theorem isMissing_toString (n : ℤ) : isMissing (toString n) = false := by
  have hall : ∀ s ∈ missingTexts, isWholeText s.toList = false := by decide
  by_contra hmissing
  have hmem : toString n ∈ missingTexts := by simpa [isMissing] using hmissing
  cases (hall _ hmem).symm.trans (isWholeText_toString n)

theorem faithful_toString (n : ℤ) : Faithful (toString n) := by
  intro hreturn
  obtain ⟨c, cs, hcs, -, hdigits, -⟩ := toDigits_cases n.natAbs
  rw [toList_toString, hcs] at hreturn
  have hmem : '\r' ∈ c :: cs := by
    split_ifs at hreturn
    · exact hreturn
    · exact (List.mem_cons.mp hreturn).resolve_left (by decide)
  exact absurd (hdigits _ hmem) (by decide)

/-- The text of a whole number is read as this number, if it is in the range. -/
theorem wholeField_toString {lo hi n : ℤ} (hlo : lo ≤ n) (hhi : n ≤ hi) :
    wholeField lo hi (toString n) = .ok n := by
  obtain ⟨c, cs, hcs, hc, hdigits, hminus, hplus, hblank⟩ := toDigits_cases n.natAbs
  have htake : (c :: cs).takeWhile Char.isDigit = c :: cs := List.takeWhile_eq_self_iff.mpr hdigits
  have hvalue : (c :: cs).foldl (fun (m : ℕ) (d : Char) => m * 10 + (d.toNat - 48)) 0 =
      n.natAbs := by
    have hdigitsValue := Nat.ofDigitChars_ten_toDigits (n := n.natAbs)
    rw [hcs, Nat.ofDigitChars] at hdigitsValue
    simp only [Nat.mul_comm 10] at hdigitsValue
    exact hdigitsValue
  unfold wholeField
  rw [toList_toString, hcs]
  split_ifs with hn
  · have hskip : (c :: cs).dropWhile isBlank = c :: cs := by simp [hblank]
    have hnat : (n.natAbs : ℤ) = n := Int.natAbs_of_nonneg hn
    rw [hskip]
    split
    next negative rest hsign =>
      split at hsign
      · simp_all
      · simp_all
      · cases hsign
        simp [htake, hvalue, hnat, not_lt.mpr hlo, not_lt.mpr hhi]
  · have hskip : ('-' :: c :: cs).dropWhile isBlank = '-' :: c :: cs := by
      rw [List.dropWhile_cons_of_neg (by decide)]
    have hnat : -|n| = n := by rw [abs_of_neg (not_le.mp hn), neg_neg]
    rw [hskip]
    simp [htake, hvalue, hnat, not_lt.mpr hlo, not_lt.mpr hhi]

theorem signedField_toString {n : ℤ} (hlo : -signedLimit - 1 ≤ n) (hhi : n ≤ signedLimit) :
    signedField (toString n) = .ok n :=
  wholeField_toString hlo hhi

/-! ### Numbers in columns -/

instance (r : Except Obstacle Int) : Decidable (r = .error .other) :=
  match r with
  | .error .other => isTrue rfl
  | .error .outside => isFalse nofun
  | .ok _ => isFalse nofun

variable [Scalar α] [Numeral α]

/-- A number that is read back from its text, which is neither that of a missing entry nor that of a
whole number. -/
structure Legible (x : α) : Prop where
  isNumber : Scalar.isNumber x = true
  scanned : Numeral.scan? (Numeral.write x) = some x
  present : isMissing (Numeral.write x) = false
  fractional : signedField (Numeral.write x) = .error .other
  faithful : Faithful (Numeral.write x)

instance [DecidableEq α] (x : α) : Decidable (Legible x) :=
  decidable_of_iff (Scalar.isNumber x = true ∧ Numeral.scan? (Numeral.write x) = some x ∧
    isMissing (Numeral.write x) = false ∧ signedField (Numeral.write x) = .error .other ∧
    Faithful (Numeral.write x))
    ⟨fun ⟨hnumber, hscanned, hpresent, hfractional, hfaithful⟩ =>
    ⟨hnumber, hscanned, hpresent, hfractional, hfaithful⟩,
      fun h => ⟨h.isNumber, h.scanned, h.present, h.fractional, h.faithful⟩⟩

/-- An entry of a table from which its number is read back. A whole number has to fit a word. -/
inductive Readable : Datum α → Prop
  | real {x : α} (hx : Legible x) : Readable (.real x)
  | int {n : ℤ} {x : α} (hn : -signedLimit - 1 ≤ n ∧ n ≤ signedLimit)
    (hreal : Numeral.ofInt? n = some x) (hx : Legible x) :
    Readable (.int n)

namespace Readable

variable {d : Datum α}

theorem legible (h : Readable d) : Legible (CutFiles.slope d) := by
  cases h with
  | real hx => exact hx
  | int hn hreal hx => simpa [CutFiles.slope, Datum.asNumeral, Datum.asNumber, Datum.ofWhole, hreal,
    Except.toOption] using hx

theorem asReal_eq (h : Readable d) : Column.asReal d = .real (CutFiles.slope d) := by
  cases h with
  | real hx => rfl
  | int hn hreal hx =>
    simp [CutFiles.slope, Column.asReal, Datum.asNumeral, Datum.asNumber, Datum.ofWhole, hreal,
      Except.toOption]

theorem isNumber (h : Readable d) : Column.isNumber d = true := by
  cases h <;> rfl

theorem not_isText (h : Readable d) : d.isText = false := by
  cases h <;> rfl

end Readable

namespace Column

variable {ds : List (Datum α)}

def again (entries : List (Datum α)) : Column α := ofFields (written entries)

omit [Scalar α] [Numeral α] in
theorem mapM_some {β γ : Type} {f : β → Option γ} {g : β → γ} {xs : List β}
    (h : ∀ x ∈ xs, f x = some (g x)) :
    xs.mapM f = some (xs.map g) := by
  induction xs with
  | nil => rfl
  | cons x xs ih =>
    rw [List.mapM_cons, h x List.mem_cons_self, ih fun y hy => h y (List.mem_cons_of_mem x hy)]
    rfl

theorem entryText_real {x : α} (hx : Legible x) : entryText (.real x) = Numeral.write x := by
  simp [entryText, hx.isNumber]

theorem written_of_real (h : ∀ d ∈ ds, Readable d)
    (hreal : (ds.any fun d => d.int?.isNone) = true) :
    written ds = ds.map fun d => Numeral.write (CutFiles.slope d) := by
  have hnumbers : ds.all isNumber = true := List.all_eq_true.mpr fun d hd => (h d hd).isNumber
  rw [written, hnumbers, hreal]
  refine List.map_congr_left fun d hd => ?_
  rw [Bool.true_and, if_pos rfl, (h d hd).asReal_eq, entryText_real (h d hd).legible]

theorem written_of_whole (hwhole : (ds.any fun d => d.int?.isNone) = false) :
    written ds = ds.map entryText := by
  rw [written, hwhole]
  simp

theorem faithful_written (h : ∀ d ∈ ds, Readable d) {s : String} (hs : s ∈ written ds) :
    Faithful s := by
  cases hreal : ds.any fun d => d.int?.isNone with
  | true =>
    rw [written_of_real h hreal] at hs
    obtain ⟨d, hd, rfl⟩ := List.mem_map.mp hs
    exact (h d hd).legible.faithful
  | false =>
    rw [written_of_whole hreal] at hs
    obtain ⟨d, hd, rfl⟩ := List.mem_map.mp hs
    cases h d hd with
    | real hx => exact entryText_real hx ▸ hx.faithful
    | int => exact faithful_toString _

theorem again_of_real (h : ∀ d ∈ ds, Readable d) (hreal : (ds.any fun d => d.int?.isNone) = true) :
    again ds = { kind := .real, entries := ds.map fun d => .real (CutFiles.slope d) } := by
  have hnumbers : numbers? (α := α) (written ds) = some
      { kind := .real, entries := ds.map fun d => .real (CutFiles.slope d) } := by
    have hentries : (written ds).mapM
        (fun s => if isMissing s then some (entry s .null) else (Numeral.scan? s).map .real) =
        some (ds.map fun d => (.real (CutFiles.slope d) : Datum α)) := by
      rw [written_of_real h hreal, List.mapM_map]
      refine mapM_some fun d hd => ?_
      simp [(h d hd).legible.present, (h d hd).legible.scanned]
    rw [numbers?, hentries]
    rfl
  have hwholes : wholes signedField (written ds) = .error .other := by
    rw [written_of_real h hreal]
    cases ds with
    | nil => cases hreal
    | cons d ds =>
      have hd := (h d List.mem_cons_self).legible
      rw [List.map_cons, wholes, List.mapM_cons, hd.present, hd.fractional]
      rfl
  rw [again, ofFields, hwholes, ofOther, hnumbers]

theorem again_of_whole (h : ∀ d ∈ ds, Readable d)
    (hwhole : (ds.any fun d => d.int?.isNone) = false) :
    again ds = { kind := .signed, entries := ds } := by
  have hints : ∀ d ∈ ds, ∃ n, d = .int n ∧ -signedLimit - 1 ≤ n ∧ n ≤ signedLimit := by
    intro d hd
    have hd' := List.any_eq_false.mp hwhole d hd
    cases h d hd with
    | real hx => simp [Datum.int?] at hd'
    | int hn => exact ⟨_, rfl, hn⟩
  have hwholes : wholes signedField (written ds) = .ok (ds.map Datum.int?) := by
    rw [written_of_whole hwhole, wholes, List.mapM_map]
    refine mapM_ok fun d hd => ?_
    obtain ⟨n, rfl, hlo, hhi⟩ := hints d hd
    have htext : entryText (.int n : Datum α) = toString n := rfl
    simp only [Function.comp, htext, isMissing_toString, signedField_toString hlo hhi]
    rfl
  have hentries : (ds.map Datum.int?).map (fun n => (.int (n.getD 0) : Datum α)) = ds := by
    rw [List.map_map]
    refine (List.map_congr_left fun d hd => ?_).trans (List.map_id _)
    obtain ⟨n, rfl, -⟩ := hints d hd
    rfl
  have hall : (ds.map Datum.int?).all Option.isSome = true := by
    rw [List.all_map, List.all_eq_true]
    intro d hd
    obtain ⟨n, rfl, -⟩ := hints d hd
    rfl
  rw [again, ofFields, hwholes]
  dsimp only
  rw [ofWholes, if_pos hall, hentries]

theorem isNumeric_again (h : ∀ d ∈ ds, Readable d) : (again ds).kind.isNumeric = true := by
  cases hreal : ds.any fun d => d.int?.isNone with
  | true => rw [again_of_real h hreal]; rfl
  | false => rw [again_of_whole h hreal]; rfl

theorem asReal_again (h : ∀ d ∈ ds, Readable d) {i : ℕ} {d : Datum α} (hd : ds[i]? = some d) :
    asReal ((again ds).entries.getD i .null) = .real (CutFiles.slope d) := by
  cases hreal : ds.any fun d => d.int?.isNone with
  | true =>
    rw [again_of_real h hreal]
    simp [hd, asReal, Datum.asNumber]
  | false =>
    rw [again_of_whole h hreal]
    simpa [hd] using (h d (List.mem_of_getElem? hd)).asReal_eq

theorem again_of_kind (h : ∀ d ∈ ds, Readable d) (hkind : (again ds).kind = .real) {i : ℕ}
    {d : Datum α} (hd : ds[i]? = some d) :
    (again ds).entries.getD i .null = .real (CutFiles.slope d) := by
  cases hreal : ds.any fun d => d.int?.isNone with
  | true =>
    rw [again_of_real h hreal]
    simp [hd]
  | false =>
    rw [again_of_whole h hreal] at hkind
    cases hkind

theorem kind_again (h : ∀ d ∈ ds, Readable d) {d : Datum α} (hd : d ∈ ds) (hreal : d.int? = none) :
    (again ds).kind = .real := by
  have hany : (ds.any fun d => d.int?.isNone) = true :=
    List.any_eq_true.mpr ⟨d, hd, by rw [hreal]; rfl⟩
  rw [again_of_real h hany]

/-! ### Tables of numbers -/

def ofGrid (rows : List (List (Datum α))) (j : ℕ) : List (Datum α) :=
  rows.map fun row => row.getD j .null

def allAgain (width : ℕ) (rows : List (List (Datum α))) : List (Column α) :=
  (List.range width).map fun j => again (ofGrid rows j)

variable {rows : List (List (Datum α))} {width last : ℕ} (hwidth : ∀ row ∈ rows, row.length = width)
  (hrows : ∀ row ∈ rows, ∀ d ∈ row, Readable d)
include hwidth hrows

theorem readable_ofGrid {j : ℕ} (hj : j < width) : ∀ d ∈ ofGrid rows j, Readable d := by
  intro d hd
  obtain ⟨row, hrow, rfl⟩ := List.mem_map.mp hd
  have hj' : j < row.length := (hwidth row hrow).symm ▸ hj
  rw [List.getD_eq_getElem _ _ hj']
  exact hrows row hrow _ (List.getElem_mem hj')

theorem isNumeric_allAgain : ((allAgain width rows).all fun c => c.kind.isNumeric) = true := by
  rw [List.all_eq_true]
  intro c hc
  obtain ⟨j, hj, rfl⟩ := List.mem_map.mp hc
  exact isNumeric_again (readable_ofGrid hwidth hrows (List.mem_range.mp hj))

/-- Rows of numbers one column of which has no whole numbers come back as rows of numbers. -/
theorem toRows_allAgain (hlast : last < width)
    (hreal : ∀ row ∈ rows, (row.getD last .null).int? = none) :
    toRows (allAgain width rows) rows.length = rows.map
      (List.map fun d => .real (CutFiles.slope d)) := by
  have hnumeric := isNumeric_allAgain hwidth hrows
  refine List.ext_getElem (by simp [toRows]) fun i hi hi' => ?_
  rw [List.length_map] at hi'
  have hrow := List.getElem_mem hi'
  have hlength := hwidth _ hrow
  have hentry (j : ℕ) : (ofGrid rows j)[i]? = some (rows[i].getD j .null) := by simp [ofGrid, hi']
  have hsame (hmixed : ((allAgain width rows).any
      fun c => (allAgain width rows).any fun d => decide (c.kind ≠ d.kind)) = false)
      {j : ℕ} (hj : j < width) : (again (ofGrid rows j)).kind = .real := by
    have hmem {j : ℕ} (hj : j < width) : again (ofGrid rows j) ∈ allAgain width rows :=
      List.mem_map.mpr ⟨j, List.mem_range.mpr hj, rfl⟩
    have hequal : ¬ _ := List.any_eq_false.mp
      (Bool.not_eq_true _ ▸ List.any_eq_false.mp hmixed _ (hmem hj)) _ (hmem hlast)
    rw [← kind_again (readable_ofGrid hwidth hrows hlast) (List.mem_of_getElem? (hentry last))
      (hreal _ hrow)]
    simpa using hequal
  simp only [toRows, hnumeric, Bool.true_and, List.getElem_map, List.getElem_range]
  refine List.ext_getElem (by simp [allAgain, hlength]) fun j hj hj' => ?_
  rw [List.length_map, hlength] at hj'
  have hd : rows[i].getD j .null = rows[i][j] := List.getD_eq_getElem _ _ (hlength.symm ▸ hj')
  have hwithin : j < (allAgain width rows).length := by simpa [allAgain] using hj'
  have hcolumn : (allAgain width rows)[j] = again (ofGrid rows j) := by simp [allAgain]
  simp only [List.getElem_map, hcolumn, ← hd]
  split_ifs with hmixed
  · exact asReal_again (readable_ofGrid hwidth hrows hj') (hentry j)
  · exact again_of_kind (readable_ofGrid hwidth hrows hj')
      (hsame (Bool.not_eq_true _ ▸ hmixed) hj') (hentry j)

end Column

end Recourse.Exchange

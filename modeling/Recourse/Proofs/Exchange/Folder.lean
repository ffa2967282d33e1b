import Recourse.Proofs.Exchange.Column

/-! The files into which cuts are written: each model has a file of its own, and none is the one
that tells where the cuts come from. What is written last under a name is what is found under it. -/

namespace Recourse

/-! ### Paths -/

namespace Text

theorem pathParts_of_plain {cs : List Char} (h : '/' ∉ cs) : pathParts cs = [cs] := by
  induction cs with
  | nil => rfl
  | cons c cs ih =>
    rw [List.mem_cons, not_or] at h
    rw [pathParts, if_neg (Ne.symm h.1), ih h.2]

/-- What follows a path without a slash belongs to its last part. -/
theorem pathParts_append (as : List Char) {bs : List Char} (h : '/' ∉ bs) :
    ∃ parts part, pathParts as = parts ++ [part] ∧
      pathParts (as ++ bs) = parts ++ [part ++ bs] := by
  induction as with
  | nil => exact ⟨[], [], rfl, pathParts_of_plain h⟩
  | cons c as ih =>
    obtain ⟨parts, part, has, hbs⟩ := ih
    rw [List.cons_append, pathParts, pathParts, has, hbs]
    split_ifs
    · exact ⟨[] :: parts, part, rfl, rfl⟩
    · cases parts with
      | nil => exact ⟨[], c :: part, rfl, rfl⟩
      | cons first parts => exact ⟨(c :: first) :: parts, part, rfl, rfl⟩

theorem fileName?_append {start suffix base : String} (h : '/' ∉ suffix.toList)
    (hstart : fileName? start = some base) :
    fileName? (start ++ suffix) = some (base ++ suffix) := by
  obtain ⟨parts, part, hparts, happend⟩ := pathParts_append start.toList h
  unfold fileName? at hstart ⊢
  rw [hparts] at hstart
  rw [String.toList_append, happend]
  simp only [List.dropLast_concat, List.getLast?_concat, Option.map_some] at hstart ⊢
  split_ifs at hstart ⊢ with hfolder
  obtain rfl := Option.some.inj hstart
  rw [String.ofList_append, String.ofList_toList]

end Text

/-! ### Folders -/

namespace Folder

variable {f : Folder} {name name' text : String}

theorem lookup_write_self : (f.write name text).lookup name = some text := by
  unfold write
  split_ifs with h
  · induction f with
    | nil => simp at h
    | cons e f ih =>
      rw [List.map_cons]
      split_ifs with he
      · simp
      · have hrest : f.any (·.1 == name) = true := by simpa [he] using h
        rw [List.lookup_cons, beq_false_of_ne fun hname => he (by simp [hname])]
        exact ih hrest
  · rw [List.lookup_append]
    have habsent : f.lookup name = none := by
      rw [List.lookup_eq_none_iff]
      intro e he
      have hne : e.1 ≠ name := by
        simpa using fun hname : e.1 = name => h (List.any_eq_true.mpr ⟨e, he, by simp [hname]⟩)
      simpa using hne.symm
    rw [habsent]
    simp

theorem lookup_write_of_ne (h : name' ≠ name) :
    (f.write name text).lookup name' = f.lookup name' := by
  unfold write
  split_ifs with hany
  · clear hany
    induction f with
    | nil => rfl
    | cons e f ih =>
      rw [List.map_cons]
      rw [List.lookup_cons (k := e.1)]
      split_ifs with he
      · have hne : name' ≠ e.1 := fun hname => h (hname.trans (by simpa using he))
        rw [List.lookup_cons, beq_false_of_ne h, beq_false_of_ne hne]
        exact ih
      · rw [List.lookup_cons, ih]
  · rw [List.lookup_append]
    simp [beq_false_of_ne h]

end Folder

/-! ### Names of files -/

namespace CutFiles

def tableEnd (t k : ℕ) : String := toString t ++ ("_" ++ (toString k ++ ".csv"))

theorem tableName_eq (start : String) (t k : ℕ) : tableName start t k = start ++ tableEnd t k := by
  rw [tableName, tableEnd, String.append_assoc, String.append_assoc, String.append_assoc]

theorem toList_tableEnd (t k : ℕ) : (tableEnd t k).toList =
    Nat.toDigits 10 t ++ '_' :: (Nat.toDigits 10 k ++ ".csv".toList) := by
  have hunderscore : "_".toList = ['_'] := rfl
  rw [tableEnd, Nat.toString_eq_repr, Nat.toString_eq_repr, String.toList_append,
    String.toList_append, String.toList_append,
    Nat.toList_repr, Nat.toList_repr, hunderscore, List.singleton_append]

theorem isDigit_toDigits {n : ℕ} {c : Char} (h : c ∈ Nat.toDigits 10 n) : c.isDigit = true :=
  Nat.isDigit_of_mem_toDigits (by omega) (by omega) h

theorem slash_tableEnd (t k : ℕ) : '/' ∉ (tableEnd t k).toList := by
  have hdigits (n : ℕ) : '/' ∉ Nat.toDigits 10 n := fun h => absurd (isDigit_toDigits h) (by decide)
  rw [toList_tableEnd]
  simp only [List.mem_append, List.mem_cons, not_or]
  exact ⟨hdigits t, by decide, hdigits k, by decide⟩

theorem takeWhile_tableEnd (t k : ℕ) :
    (tableEnd t k).toList.takeWhile Char.isDigit = Nat.toDigits 10 t := by
  rw [toList_tableEnd, List.takeWhile_append_of_pos
    fun c hc => isDigit_toDigits hc, List.takeWhile_cons_of_neg (by decide),
    List.append_nil]

theorem tableEnd_injective {t k t' k' : ℕ} (h : tableEnd t k = tableEnd t' k') :
    t = t' ∧ k = k' := by
  have hlists := congrArg String.toList h
  have hinjective {m n : ℕ} (h : Nat.toDigits 10 m = Nat.toDigits 10 n) : m = n := by
    rw [← Nat.ofDigitChars_ten_toDigits (n := m), h, Nat.ofDigitChars_ten_toDigits]
  obtain rfl : t = t' := hinjective (by rw [← takeWhile_tableEnd t k, h, takeWhile_tableEnd])
  rw [toList_tableEnd, toList_tableEnd] at hlists
  have hrest := List.cons_inj_right '_' |>.mp (List.append_cancel_left hlists)
  exact ⟨rfl, hinjective (List.append_cancel_right hrest)⟩

theorem tableEnd_ne (t k : ℕ) : tableEnd t k ≠ "info.csv" := by
  intro h
  have hdigits := takeWhile_tableEnd t k
  rw [h] at hdigits
  exact Nat.toDigits_ne_nil hdigits.symm

end CutFiles

end Recourse

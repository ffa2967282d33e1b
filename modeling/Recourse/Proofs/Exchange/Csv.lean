import Recourse.Exchange.Csv
import Recourse.Proofs.Run

/-! Tables as text, read back. A field is read back whatever follows it, then a line, then all
records. A line of a single empty field would count as blank, so records have two fields or more. -/

namespace Recourse.Csv

variable {α : Type}

/-- A field whose text can be told apart from the ends of fields and lines: a carriage return stands
in quotes. -/
def Faithful (s : String) : Prop := '\r' ∈ s.toList → needsQuotes s = true

instance (s : String) : Decidable (Faithful s) := inferInstanceAs (Decidable (_ → _))

namespace Reader

/-- A reader behind the characters `cs` of a field, the quote behind which is read if there is
one. -/
def Behind (r : Reader) (cs : List Char) (fields : List String) (records : List (List String)) :
    Prop :=
  ∃ place touched, place ≠ .quoted ∧
    r = { place, field := cs.reverse, fields, records, touched, returned := false }

def Before (r : Reader) (fields : List String) (records : List (List String)) : Prop :=
  ∃ touched, r = { fields, records, touched }

variable {r : Reader} {fields : List String} {records : List (List String)} {cs : List Char}

theorem read_plain {place : Place} {touched : Bool} {c : Char}
    (hplace : place = .start ∨ place = .plain) (hc : c ≠ ',' ∧ c ≠ '"' ∧ c ≠ '\n' ∧ c ≠ '\r') :
    ({ place, field := cs, fields, records, touched } : Reader).read c =
      { place := .plain, field := c :: cs, fields, records, touched } := by
  obtain ⟨hcomma, hquote, hfeed, hreturn⟩ := hc
  rcases hplace with rfl | rfl <;> simp [read, readPlain, hcomma, hquote, hfeed, hreturn]

theorem foldl_plain (hcs : ∀ c ∈ cs, c ≠ ',' ∧ c ≠ '"' ∧ c ≠ '\n' ∧ c ≠ '\r') {place : Place}
    {touched : Bool} (hplace : place = .start ∨ place = .plain) (done : List Char) :
    Behind (cs.foldl read { place, field := done.reverse, fields, records, touched })
      (done ++ cs) fields records := by
  induction cs generalizing place done with
  | nil =>
    refine ⟨place, touched, ?_, by rw [List.append_nil]; rfl⟩
    rcases hplace with rfl | rfl <;> decide
  | cons c cs ih =>
    rw [List.foldl_cons, read_plain hplace (hcs c List.mem_cons_self), ← List.reverse_concat]
    have hrest := ih (fun c hc => hcs c (List.mem_cons_of_mem _ hc)) (.inr rfl) (done ++ [c])
    rwa [List.append_assoc] at hrest

theorem foldl_doubled (cs done : List Char) (touched : Bool) :
    (doubled cs).foldl read { place := .quoted, field := done.reverse, fields, records, touched } =
      { place := .quoted, field := (done ++ cs).reverse, fields, records, touched } := by
  induction cs generalizing done with
  | nil => rw [List.append_nil]; rfl
  | cons c cs ih =>
    have hrest := ih (done ++ [c])
    rw [List.append_assoc, List.reverse_concat] at hrest
    rw [← List.singleton_append, ← hrest]
    by_cases hc : c = '"'
    · simp [doubled, hc, read]
    · simp [doubled, hc, read]

theorem Before.read_field (h : r.Before fields records) {s : String} (hs : Faithful s) :
    Behind ((Csv.field s).toList.foldl read r) s.toList fields records := by
  obtain ⟨touched, rfl⟩ := h
  unfold Csv.field
  split_ifs with hquotes
  · have hstart : ['"'].foldl read { fields, records, touched } =
        { place := .quoted, field := [].reverse, fields, records, touched := true } := by
      simp [read]
    have hquote : "\"".toList = ['"'] := rfl
    rw [String.toList_append, String.toList_append, hquote, String.toList_ofList, List.foldl_append,
      List.foldl_append,
      hstart, foldl_doubled]
    refine ⟨.closing, true, by decide, ?_⟩
    simp [read]
  · refine foldl_plain (fun c hc => ?_) (.inl rfl) []
    have hplain : ∀ c ∈ s.toList, c ≠ ',' ∧ c ≠ '"' ∧ c ≠ '\n' := by
      simpa [needsQuotes, and_assoc] using hquotes
    obtain ⟨hcomma, hquote, hfeed⟩ := hplain c hc
    exact ⟨hcomma, hquote, hfeed, fun hreturn => hquotes (hs (hreturn ▸ hc))⟩

theorem Behind.comma {s : String} (h : r.Behind s.toList fields records) :
    (r.read ',').Before (s :: fields) records := by
  obtain ⟨place, touched, hplace, rfl⟩ := h
  refine ⟨touched, ?_⟩
  cases place <;> first | exact absurd rfl hplace | simp [read, readPlain, endField]

theorem Behind.lineFeed {s : String} (h : r.Behind s.toList fields records)
    (hfields : fields ≠ []) :
    r.read '\n' = { records := (s :: fields).reverse :: records } := by
  obtain ⟨place, touched, hplace, rfl⟩ := h
  have hblank (place : Place) (field : List Char) :
      ({ place, field, fields, records, touched } : Reader).isBlank = false := by
    simp [isBlank, List.isEmpty_eq_false_iff.mpr hfields]
  cases place <;> first | exact absurd rfl hplace | simp [read, readPlain, endRecord,
    endField, hblank]

theorem Before.read_fields (h : r.Before fields records) {s : String} {ss : List String}
    (hss : ∀ f ∈ s :: ss, Faithful f) (hlength : fields ≠ [] ∨ ss ≠ []) :
    (",".intercalate ((s :: ss).map Csv.field) ++ "\n").toList.foldl read r =
      { records := (fields.reverse ++ s :: ss) :: records } := by
  induction ss generalizing r s fields with
  | nil =>
    have hfields : fields ≠ [] := hlength.resolve_right (· rfl)
    have hfield := h.read_field (hss s List.mem_cons_self)
    rw [List.map_singleton, String.intercalate_singleton, String.toList_append, List.foldl_append]
    exact (hfield.lineFeed hfields).trans (by rw [List.reverse_cons])
  | cons s' ss ih =>
    have hcomma := (h.read_field (hss s List.mem_cons_self)).comma
    have hrest := ih hcomma (fun f hf => hss f (List.mem_cons_of_mem _ hf))
      (.inl (List.cons_ne_nil _ _))
    rw [List.map_cons, List.map_cons, String.intercalate_cons_cons, ← List.map_cons,
      String.append_assoc,
      String.append_assoc, String.toList_append, String.toList_append, List.foldl_append,
      List.foldl_append]
    exact hrest.trans (by rw [List.reverse_cons, List.append_assoc, List.singleton_append])

/-- A line is read back as a record. -/
theorem foldl_line {row : List String} (hlength : 2 ≤ row.length) (hrow : ∀ s ∈ row, Faithful s)
    (records : List (List String)) :
    (line row).toList.foldl read { records } = { records := row :: records } := by
  match row with
  | s :: s' :: ss => exact Before.read_fields ⟨false, rfl⟩ hrow (.inr (List.cons_ne_nil _ _))

theorem foldl_render {rows : List (List String)} (hlength : ∀ row ∈ rows, 2 ≤ row.length)
    (hrows : ∀ row ∈ rows, ∀ s ∈ row, Faithful s) (records : List (List String)) :
    (render rows).toList.foldl read { records } = { records := rows.reverse ++ records } := by
  induction rows generalizing records with
  | nil => rfl
  | cons row rows ih =>
    have hrest := ih (fun row h => hlength row (List.mem_cons_of_mem _ h))
      (fun row h => hrows row (List.mem_cons_of_mem _ h))
      (row :: records)
    have hline := foldl_line (hlength row List.mem_cons_self) (hrows row List.mem_cons_self) records
    unfold render at hrest ⊢
    rw [List.map_cons, String.join_cons, String.toList_append, List.foldl_append, hline, hrest]
    simp

end Reader

theorem width_eq {header : List String} {rows : List (List String)}
    (hrows : ∀ row ∈ rows, row.length = header.length) :
    Table.width { header, rows } = header.length := by
  cases rows with
  | nil => simp [Table.width]
  | cons row rows => simp [Table.width, hrows row List.mem_cons_self]

/-- A table is read back from its text, unless this begins with a mark of the byte order. -/
theorem parse_render {header : List String} {rows : List (List String)}
    (hheader : 2 ≤ header.length)
    (hrows : ∀ row ∈ rows, row.length = header.length)
    (hfaithful : ∀ row ∈ header :: rows, ∀ s ∈ row, Faithful s)
    (hmark : (render (header :: rows)).toList.head? ≠ some '\ufeff') :
    parse (α := α) (render (header :: rows)) = .ok { header, rows } := by
  have hlength : ∀ row ∈ header :: rows, 2 ≤ row.length := by
    simpa [hheader] using fun row hrow => (hrows row hrow).symm ▸ hheader
  have hread : readAll (render (header :: rows)) = { records := (header :: rows).reverse } := by
    have hall := Reader.foldl_render hlength hfaithful []
    rw [List.append_nil] at hall
    rw [← hall]
    unfold readAll
    split
    · next cs hcs => simp [hcs] at hmark
    · rfl
  have hfilled : rows.map (Table.filled header.length) = rows := by
    refine (List.map_congr_left fun row hrow => ?_).trans (List.map_id _)
    simp [Table.filled, hrows row hrow]
  have hragged : (rows.any fun row => decide (header.length < row.length)) = false := by
    simpa using fun row hrow => (hrows row hrow).le
  have hend : ({ records := (header :: rows).reverse } : Reader).endRecord.records.reverse =
      header :: rows := by
    simp [Reader.endRecord, Reader.isBlank]
  rw [parse, hread]
  dsimp only
  rw [hend]
  dsimp only
  rw [width_eq hrows, hragged, hfilled]
  rfl

end Recourse.Csv

import StudyTech.Spec.FindByParam

/-!
# What `findByParam` finds

The rows that match a bean are those that match it in every column. `convertParam` makes predicates
for the string and the number columns, where all getters can be read; so the rows that are found
are those that match in these columns (`findByParam_ok`), and nothing more than those that match
only if the other columns make no difference (`findByParam_matching`).
-/

namespace StudyTech

section Matching

variable {V : Type} [DecidableEq V]

/-- The value of a property that can be read and is not null. -/
def propertyValue (param : ParamBean V) (name : String) : Option V :=
  match param name with
  | some ⟨some (.ok value)⟩ => value
  | _ => none

/-- There is no such property, or its getter returns. -/
def ReadableProperty (param : ParamBean V) (name : String) : Prop :=
  ∀ pd, param name = some pd → ∃ value, pd.readMethod = some (.ok value)

/-- The columns that `convertParam` makes predicates for. -/
def Column.IsConverted (column : Column) : Prop := column.type = .string ∨ column.type = .number

instance (column : Column) : Decidable column.IsConverted := by
  unfold Column.IsConverted
  infer_instance

namespace TextOf

variable (T : TextOf V)

/-- The row matches the bean in a column: it has the value of the property, or contains its text
in a string column. -/
def matchesAt (param : ParamBean V) (row : TableRow V) (column : Column) : Bool :=
  match propertyValue param column.name with
  | none => true
  | some value =>
    if column.type = .string then (row column).any (T.containsIgnoreCase · (T.toString value))
    else row column == some value

/-- The row matches the bean in all columns. -/
def matchesParam (columns : List Column) (param : ParamBean V) (row : TableRow V) : Bool :=
  columns.all (T.matchesAt param row)

/-- The row matches the bean in the columns that are converted. -/
def matchesConverted (columns : List Column) (param : ParamBean V) (row : TableRow V) : Bool :=
  columns.all fun column => !decide column.IsConverted || T.matchesAt param row column

/-- `findByParam` returns the rows that match. -/
def FindsMatching (columns : List Column) (table : List (TableRow V)) (param : ParamBean V) : Prop :=
  T.findByParam columns table (some param) = .ok (table.filter (T.matchesParam columns param))

end TextOf

end Matching

section Convert

variable {V : Type} [DecidableEq V] {T : TextOf V} {param : ParamBean V} {columns : List Column}
  {table : List (TableRow V)} {row : TableRow V}

/-- The predicates of a column hold of the rows that match in the column. -/
theorem predicatesOf_all {column : Column} {value : V} (h : propertyValue param column.name = some value) :
    (T.predicatesOf column value).all (T.holds row) = (!decide column.IsConverted || T.matchesAt param row column) := by
  obtain ⟨name, type⟩ := column
  unfold TextOf.predicatesOf TextOf.matchesAt
  rw [h]
  cases type <;> simp [TextOf.holds, Column.IsConverted]

/-- A column without a value matches all rows. -/
theorem matchesAt_of_none {column : Column} (h : propertyValue param column.name = none) :
    T.matchesAt param row column = true := by
  unfold TextOf.matchesAt
  rw [h]

/-- Where all getters return, the predicates hold of the rows that match in the converted columns. -/
theorem convertParam_ok (h : ∀ column ∈ columns, ReadableProperty param column.name) :
    ∃ list, T.convertParam param columns = .ok list ∧
      ∀ row, list.all (T.holds row) = T.matchesConverted columns param row := by
  induction columns with
  | nil => exact ⟨[], rfl, fun _ => rfl⟩
  | cons column columns ih =>
    obtain ⟨list, hlist, hall⟩ := ih fun c hc => h c (List.mem_cons_of_mem _ hc)
    have hreadable := h column List.mem_cons_self
    unfold TextOf.convertParam
    have hskip : propertyValue param column.name = none → ∀ row,
        list.all (T.holds row) = T.matchesConverted (column :: columns) param row := by
      intro hnone row
      unfold TextOf.matchesConverted
      rw [List.all_cons, matchesAt_of_none hnone, Bool.or_true, Bool.true_and, hall]
      rfl
    cases hpd : param column.name with
    | none =>
      refine ⟨list, hlist, hskip ?_⟩
      unfold propertyValue
      rw [hpd]
    | some pd =>
      obtain ⟨value, hvalue⟩ := hreadable pd hpd
      have hproperty : propertyValue param column.name = value := by
        obtain ⟨readMethod⟩ := pd
        cases hvalue
        unfold propertyValue
        rw [hpd]
      cases value with
      | none =>
        refine ⟨list, ?_, hskip hproperty⟩
        simp only [hvalue]
        exact hlist
      | some value =>
        refine ⟨T.predicatesOf column value ++ list, ?_, fun row => ?_⟩
        · simp only [hvalue, hlist]
          rfl
        · rw [List.all_append, predicatesOf_all hproperty, hall]
          rfl

omit [DecidableEq V] in
/-- A getter that is missing or throws ends `convertParam`. -/
theorem convertParam_error {column : Column} (hmem : column ∈ columns) (h : ¬ ReadableProperty param column.name) :
    ∃ e, T.convertParam param columns = .error e := by
  induction columns with
  | nil => exact absurd hmem List.not_mem_nil
  | cons first columns ih =>
    unfold TextOf.convertParam
    by_cases hfirst : ReadableProperty param first.name
    · have hne : column ≠ first := fun heq => h (heq ▸ hfirst)
      obtain ⟨e, he⟩ := ih ((List.mem_cons.1 hmem).resolve_left hne)
      refine ⟨e, ?_⟩
      cases hpd : param first.name with
      | none => exact he
      | some pd =>
        obtain ⟨value, hvalue⟩ := hfirst pd hpd
        simp only [hvalue]
        cases value with
        | none => exact he
        | some value =>
          simp only [he]
          rfl
    · -- this getter is the one that is missing or throws
      unfold ReadableProperty at hfirst
      push Not at hfirst
      obtain ⟨pd, hpd, hnot⟩ := hfirst
      simp only [hpd]
      cases hread : pd.readMethod with
      | none => exact ⟨_, rfl⟩
      | some invoke =>
        cases invoke with
        | ok value => exact absurd hread (hnot value)
        | error e => exact ⟨e, rfl⟩

/-- Where all getters return, the rows found are those that match in the converted columns. -/
theorem findByParam_ok (T : TextOf V) (table : List (TableRow V))
    (h : ∀ column ∈ columns, ReadableProperty param column.name) :
    T.findByParam columns table (some param) = .ok (table.filter (T.matchesConverted columns param)) := by
  obtain ⟨list, hlist, hall⟩ := convertParam_ok (T := T) h
  unfold TextOf.findByParam
  simp only [hlist]
  show Except.ok (T.fetchWhere table list) = _
  unfold TextOf.fetchWhere
  rw [List.filter_congr fun row _ => hall row]

/-- A row matches in all columns if it matches in the converted ones and in the others. -/
theorem matchesParam_eq : T.matchesParam columns param row = true ↔ T.matchesConverted columns param row = true ∧
    ∀ column ∈ columns, ¬ column.IsConverted → T.matchesAt param row column = true := by
  unfold TextOf.matchesParam TextOf.matchesConverted
  simp only [List.all_eq_true, Bool.or_eq_true, Bool.not_eq_true', decide_eq_false_iff_not]
  constructor
  · intro h
    exact ⟨fun column hc => .inr (h column hc), fun column hc _ => h column hc⟩
  · rintro ⟨hconverted, hother⟩ column hc
    by_cases hcolumn : column.IsConverted
    · exact (hconverted column hc).resolve_left (not_not.2 hcolumn)
    · exact hother column hc hcolumn

/-- The rows found are those that match if no getter is missing or throws, and the columns that are
not converted make no difference. -/
theorem findsMatching_iff (T : TextOf V) (columns : List Column) (table : List (TableRow V)) (param : ParamBean V) :
    T.FindsMatching columns table param ↔ (∀ column ∈ columns, ReadableProperty param column.name) ∧
      ∀ row ∈ table, T.matchesConverted columns param row = true →
        ∀ column ∈ columns, ¬ column.IsConverted → T.matchesAt param row column = true := by
  unfold TextOf.FindsMatching
  by_cases hreadable : ∀ column ∈ columns, ReadableProperty param column.name
  · rw [findByParam_ok T table hreadable]
    constructor
    · intro heq
      refine ⟨hreadable, fun row hrow hmatches => ?_⟩
      have hmem : row ∈ table.filter (T.matchesConverted columns param) := List.mem_filter.2 ⟨hrow, hmatches⟩
      injection heq with heq
      rw [heq] at hmem
      exact (matchesParam_eq.1 (List.mem_filter.1 hmem).2).2
    · rintro ⟨-, hother⟩
      congr 1
      refine List.filter_congr fun row hrow => ?_
      rw [Bool.eq_iff_iff, matchesParam_eq]
      exact ⟨fun h => ⟨h, hother row hrow h⟩, fun h => h.1⟩
  · refine iff_of_false ?_ fun h => hreadable h.1
    push Not at hreadable
    obtain ⟨column, hcolumn, hnot⟩ := hreadable
    obtain ⟨e, he⟩ := convertParam_error (T := T) hcolumn hnot
    unfold TextOf.findByParam
    simp only [he]
    exact fun heq => nomatch heq

/-- All rows match a bean of nulls. -/
theorem matching_nulls (hnulls : ∀ column ∈ columns, propertyValue param column.name = none) :
    table.filter (T.matchesParam columns param) = table := by
  refine List.filter_eq_self.2 fun row _ => ?_
  unfold TextOf.matchesParam
  rw [List.all_eq_true]
  exact fun column hc => matchesAt_of_none (hnulls column hc)

/-- **What `findByParam` returns.** Without a bean it returns all rows. For a bean it returns the
rows that match, which are all of them for a bean of nulls, if and only if no getter of a column is
missing or throws, and every row that matches in the string and the number columns matches in the
others as well. -/
theorem findByParam_matching (T : TextOf V) (columns : List Column) (table : List (TableRow V)) (param : ParamBean V) :
    T.findByParam columns table none = .ok table ∧
    ((∀ column ∈ columns, propertyValue param column.name = none) →
      table.filter (T.matchesParam columns param) = table) ∧
    (T.FindsMatching columns table param ↔ (∀ column ∈ columns, ReadableProperty param column.name) ∧
      ∀ row ∈ table, T.matchesConverted columns param row = true →
        ∀ column ∈ columns, ¬ column.IsConverted → T.matchesAt param row column = true) :=
  ⟨rfl, matching_nulls, findsMatching_iff T columns table param⟩

/-- **Beans and tables that `findByParam` is right for, whatever the rows are**: all getters return,
and the properties of the columns that are not converted are null. -/
theorem findsMatching_every_table (T : TextOf V) (columns : List Column) (param : ParamBean V) :
    (∀ table, T.FindsMatching columns table param) ↔ (∀ column ∈ columns, ReadableProperty param column.name) ∧
      ∀ column ∈ columns, ¬ column.IsConverted → propertyValue param column.name = none := by
  constructor
  · intro h
    -- the row that has the value of the property in the converted columns only
    set row : TableRow V := fun column =>
      if column.IsConverted then propertyValue param column.name else none with hrow
    obtain ⟨hreadable, hother⟩ := (findsMatching_iff T columns [row] param).1 (h [row])
    refine ⟨hreadable, fun column hc hcolumn => ?_⟩
    have hconverted : T.matchesConverted columns param row = true := by
      unfold TextOf.matchesConverted
      rw [List.all_eq_true]
      intro column _
      by_cases hcolumn : column.IsConverted
      · unfold TextOf.matchesAt
        cases hvalue : propertyValue param column.name with
        | none => simp
        | some value => simp [hrow, hcolumn, hvalue, TextOf.containsIgnoreCase]
      · simp [hcolumn]
    have hmatches := hother row List.mem_cons_self hconverted column hc hcolumn
    unfold TextOf.matchesAt at hmatches
    cases hvalue : propertyValue param column.name with
    | none => rfl
    | some value =>
      have hstring : column.type ≠ .string := fun heq => hcolumn (.inl heq)
      simp [hrow, hcolumn, hvalue, hstring] at hmatches
  · rintro ⟨hreadable, hnone⟩ table
    refine (findsMatching_iff T columns table param).2 ⟨hreadable, fun row _ _ column hc hcolumn => ?_⟩
    exact matchesAt_of_none (hnone column hc hcolumn)

/-- The columns of `QUser` are a number and a string: all that counts is that the getters return. -/
theorem findsMatching_qUser (T : TextOf V) (table : List (TableRow V)) (param : ParamBean V) :
    T.FindsMatching qUserColumns table param ↔ ReadableProperty param "id" ∧ ReadableProperty param "name" := by
  rw [findsMatching_iff]
  simp [qUserColumns, Column.IsConverted]

end Convert

/-- A column that is neither a string nor a number. -/
def enabledColumn : Column := ⟨"enabled", .boolean⟩

/-- A bean with the one property, and its descriptor. -/
def enabledBean (pd : PropertyDescriptor Bool) : ParamBean Bool := fun name =>
  if name = "enabled" then some pd else none

def boolText : TextOf Bool := ⟨fun b => if b then "true" else "false", id⟩

theorem findByParam_matching_nulls : [fun _ => some false].filter
    (boolText.matchesParam [enabledColumn] (enabledBean ⟨some (.ok none)⟩)) = [fun _ => some false] :=
  (findByParam_matching boolText [enabledColumn] [fun _ => some false] (enabledBean ⟨some (.ok none)⟩)).2.1
    (by simp [propertyValue, enabledBean, enabledColumn])

/-- **A boolean column is left out of the predicates, and a property without a getter is an error.** -/
theorem findByParam_leaves_out :
    (boolText.findByParam [enabledColumn] [fun _ => some false] (some (enabledBean ⟨some (.ok (some true))⟩)) =
        .ok [fun _ => some false] ∧
      [fun _ => some false].filter
        (boolText.matchesParam [enabledColumn] (enabledBean ⟨some (.ok (some true))⟩)) = []) ∧
    boolText.findByParam [enabledColumn] [fun _ => some false] (some (enabledBean ⟨none⟩)) =
      .error ⟨"java.lang.NullPointerException", none⟩ :=
  ⟨⟨rfl, rfl⟩, rfl⟩

end StudyTech

import SpringQL.Pipeline.Model

/-!
# SpringQL.Row

A pump's output tuple committed to its downstream stream: `SqlValues::into_row`.

`mk_column_values` zips `column_order` with the tuple's values and inserts each pair into a
`ColumnValues`; a second insert of a column panics ("duplicate column name"). `into_row` first
asserts that the two lengths agree, then builds the stream's columns from the map.
`ColumnValues`, `StreamColumns` and `Row` live in modules that are not among the sources: a
`ColumnValues` is a finite map whose `insert` fails on a column already set (the call site's
`expect` and `into_row`'s "# Panics" say so), and `StreamColumns::new` takes, for each column of
the shape in order, the value set for it, failing on a missing column or on a value of the wrong
type, as the spec says.

* `insertAll_eq`: the insert loop fails exactly on a repeated column and otherwise maps each
  column to its own value.
* `mkColumnValues_spec`: for equal lengths, `mk_column_values` panics exactly when `column_order`
  repeats a name; otherwise it binds `column_order[i]` to `values[i]`, and a row `into_row` builds
  holds `values[i]` in column `column_order[i]`.
* `intoRow_eq_error_iff`: `into_row` fails only by panicking, exactly for the causes its doc
  comment lists.
* `intoRow_eq_ok_iff`: `into_row` returns a row exactly when the lengths agree, the order repeats
  no name and every shape column takes a fitting value from its name's position in the order.
* `intoRow_perm`: reordering `column_order` together with the tuple's values changes nothing.
-/

namespace SpringQL

/-- `SqlValues`: a tuple's values, in order. -/
structure SqlValues where
  values : List SqlValue

/-- Modelled from the spec: `ColumnValues`, the value set for each column name. -/
structure ColumnValues where
  get : String → Option SqlValue

namespace ColumnValues

/-- `ColumnValues::default()`: no column set. -/
def default : ColumnValues := ⟨fun _ => none⟩

/-- Modelled from the spec: `ColumnValues::insert`, failing with `Sql` on a column already set. -/
def insert (cv : ColumnValues) (columnName : String) (value : SqlValue) :
    Except SpringError ColumnValues :=
  if (cv.get columnName).isSome then
    .error (.sql ("column \"" ++ columnName ++ "\" is already set"))
  else .ok ⟨fun c => if c = columnName then some value else cv.get c⟩

end ColumnValues

/-- Modelled from the spec: the SQL type of a non-NULL value. -/
def NnSqlValue.sqlType : NnSqlValue → SqlType
  | .smallInt _ => .smallInt
  | .integer _ => .integer
  | .bigInt _ => .bigInt
  | .text _ => .text
  | .boolean _ => .boolean
  | .timestamp _ => .timestamp

/-- Modelled from the spec: a value fits a column when it is NULL and the column nullable, or it
has the column's type. -/
def SqlValue.fits : SqlValue → ColumnDefinition → Bool
  | .null, c => c.nullable
  | .notNull v, c => v.sqlType == c.sqlType

/-- Modelled from the spec: `StreamColumns`, a row's values in the order of its stream's shape. -/
structure StreamColumns where
  streamModel : StreamModel
  values : List SqlValue

/-- Modelled from the spec: the value `StreamColumns::new` takes for one column of the shape,
failing with `Sql` when the column is missing or its value does not fit. -/
def StreamColumns.columnValue (columnValues : ColumnValues) (c : ColumnDefinition) :
    Except SpringError SqlValue :=
  match columnValues.get c.columnName with
  | none => .error (.sql ("column \"" ++ c.columnName ++ "\" is missing"))
  | some v =>
    if v.fits c then .ok v
    else .error (.sql ("column \"" ++ c.columnName ++ "\" has a value of another type"))

/-- Modelled from the spec: `StreamColumns::new`, each column of the shape in order. -/
def StreamColumns.new (streamModel : StreamModel) (columnValues : ColumnValues) :
    Except SpringError StreamColumns :=
  (streamModel.shape.mapM (columnValue columnValues)).map fun values => ⟨streamModel, values⟩

/-- `Row`, as `Row::new` builds it from its columns; the arrival time it stamps is left out. -/
structure Row where
  cols : StreamColumns

/-- The row's value in the first column of the given name. -/
def Row.get (row : Row) (columnName : String) : Option SqlValue :=
  ((row.cols.streamModel.shape.zip row.cols.values).find? (·.1.columnName == columnName)).map (·.2)

namespace SqlValues

/-- The loop of `mk_column_values`: insert each pair, panicking on a column already set. -/
def insertAll (columnValues : ColumnValues) (pairs : List (String × SqlValue)) :
    Except Fault ColumnValues :=
  pairs.foldlM (fun columnValues (columnName, value) =>
    expectOk (columnValues.insert columnName value) "duplicate column name") columnValues

/-- `mk_column_values`. -/
def mkColumnValues (self : SqlValues) (columnOrder : List String) : Except Fault ColumnValues :=
  insertAll .default (columnOrder.zip self.values)

/-- `into_row`. -/
def intoRow (self : SqlValues) (streamModel : StreamModel) (columnOrder : List String) :
    Except Fault Row :=
  if self.values.length = columnOrder.length then
    match self.mkColumnValues columnOrder with
    | .error f => .error f
    | .ok columnValues =>
      (expectOk (StreamColumns.new streamModel columnValues)
        "type or shape mismatch? must be checked on pump creation").map Row.mk
  else .error (.panic "assertion `left == right` failed")

/-- The value `pairs` give a column: the first pair's, if any. -/
def pairsGet (pairs : List (String × SqlValue)) (c : String) : Option SqlValue :=
  (pairs.find? (·.1 == c)).map (·.2)

@[simp] theorem pairsGet_nil (c : String) : pairsGet [] c = none := rfl

theorem pairsGet_cons (k : String) (v : SqlValue) (pairs : List (String × SqlValue)) (c : String) :
    pairsGet ((k, v) :: pairs) c = if k = c then some v else pairsGet pairs c := by
  by_cases h : k = c <;> simp [pairsGet, List.find?_cons, h]

theorem pairsGet_eq_none {pairs : List (String × SqlValue)} {c : String}
    (h : c ∉ pairs.map Prod.fst) : pairsGet pairs c = none := by
  simp only [pairsGet, Option.map_eq_none', List.find?_eq_none, beq_iff_eq]
  exact fun p hp hpc => h (hpc ▸ List.mem_map_of_mem Prod.fst hp)

/-- The columns of `pairs`, in order, bound to their values, the first one winning. -/
theorem pairsGet_zip_getElem {cs : List String} {vs : List SqlValue} (hnd : cs.Nodup) {i : Nat}
    (hi : i < cs.length) (hv : i < vs.length) : pairsGet (cs.zip vs) cs[i] = some vs[i] := by
  induction cs generalizing vs i with
  | nil => exact absurd hi (Nat.not_lt_zero i)
  | cons c cs ih =>
    obtain _ | ⟨v, vs⟩ := vs
    · exact absurd hv (Nat.not_lt_zero i)
    obtain ⟨hc, hnd⟩ := List.nodup_cons.mp hnd
    cases i with
    | zero => simp [pairsGet_cons]
    | succ i =>
      have hi : i < cs.length := Nat.lt_of_succ_lt_succ hi
      have hne : c ≠ cs[i] := fun h => hc (h ▸ List.getElem_mem hi)
      simpa [pairsGet_cons, hne] using ih hnd hi (Nat.lt_of_succ_lt_succ hv)

/-- The value `cs.zip vs` gives a column is the one at the column's first position in `cs`. -/
theorem pairsGet_zip_eq_getElem?_indexOf {cs : List String} {vs : List SqlValue}
    (hlen : vs.length = cs.length) (c : String) : pairsGet (cs.zip vs) c = vs[cs.indexOf c]? := by
  induction cs generalizing vs with
  | nil => simp_all
  | cons k cs ih =>
    obtain _ | ⟨v, vs⟩ := vs
    · simp at hlen
    · by_cases h : k = c
      · simp [pairsGet_cons, List.indexOf_cons, h]
      · simp [pairsGet_cons, List.indexOf_cons, h, ih (Nat.succ.inj hlen)]

/-- With no column repeated, `pairs` gives `c` the value `v` exactly when it holds the pair. -/
theorem pairsGet_eq_some_iff {pairs : List (String × SqlValue)} (hnd : (pairs.map Prod.fst).Nodup)
    {c : String} {v : SqlValue} : pairsGet pairs c = some v ↔ (c, v) ∈ pairs := by
  induction pairs with
  | nil => simp
  | cons p pairs ih =>
    obtain ⟨k, w⟩ := p
    obtain ⟨hk, hnd⟩ := List.nodup_cons.mp hnd
    rw [pairsGet_cons, List.mem_cons]
    by_cases h : k = c
    · subst h
      have hv : (k, v) ∉ pairs := fun hm => hk (List.mem_map.mpr ⟨_, hm, rfl⟩)
      simp [hv, eq_comm]
    · simp [h, Ne.symm h, ih hnd]

/-- With no column repeated, the order of the pairs does not change the value of any column. -/
theorem pairsGet_perm {pairs pairs' : List (String × SqlValue)} (hnd : (pairs.map Prod.fst).Nodup)
    (hp : pairs.Perm pairs') : pairsGet pairs = pairsGet pairs' := by
  have hnd' : (pairs'.map Prod.fst).Nodup := (hp.map Prod.fst).nodup_iff.mp hnd
  funext c
  refine Option.ext fun v => ?_
  rw [Option.mem_def, Option.mem_def, pairsGet_eq_some_iff hnd, pairsGet_eq_some_iff hnd', hp.mem_iff]

theorem insertAll_cons (cv : ColumnValues) (k : String) (v : SqlValue)
    (pairs : List (String × SqlValue)) :
    insertAll cv ((k, v) :: pairs) =
      if (cv.get k).isSome then .error (.panic "duplicate column name")
      else insertAll ⟨fun c => if c = k then some v else cv.get c⟩ pairs := by
  by_cases h : (cv.get k).isSome <;> simp [insertAll, ColumnValues.insert, expectOk, h, bind, Except.bind]

/-- The insert loop panics exactly when a column repeats or was already set; otherwise each column
of `pairs` is bound to its value. -/
theorem insertAll_eq (cv : ColumnValues) (pairs : List (String × SqlValue)) :
    insertAll cv pairs =
      if (pairs.map Prod.fst).Nodup ∧ ∀ p ∈ pairs, cv.get p.1 = none then
        .ok ⟨fun c => (pairsGet pairs c).or (cv.get c)⟩
      else .error (.panic "duplicate column name") := by
  induction pairs generalizing cv with
  | nil => simp [insertAll, pure, Except.pure]
  | cons p pairs ih =>
    obtain ⟨k, v⟩ := p
    rw [insertAll_cons]
    by_cases hk : cv.get k = none
    case neg =>
      rw [if_pos (Option.ne_none_iff_isSome.mp hk), if_neg (fun h => hk (h.2 _ (List.mem_cons_self _ _)))]
    case pos =>
      rw [if_neg (by simp [hk]), ih]
      have hset (q : String × SqlValue) :
          (if q.1 = k then some v else cv.get q.1) = none ↔ q.1 ≠ k ∧ cv.get q.1 = none := by
        by_cases hq : q.1 = k <;> simp [hq]
      have hkey : k ∉ pairs.map Prod.fst ↔ ∀ q ∈ pairs, q.1 ≠ k := by
        simp only [List.mem_map, not_exists, not_and, ne_eq]
      have hiff : ((pairs.map Prod.fst).Nodup ∧
            ∀ q ∈ pairs, (if q.1 = k then some v else cv.get q.1) = none) ↔
          (((k, v) :: pairs).map Prod.fst).Nodup ∧ ∀ q ∈ (k, v) :: pairs, cv.get q.1 = none := by
        simp only [List.map_cons, List.nodup_cons, List.forall_mem_cons, hk, true_and, hset, hkey,
          imp_and, forall_and]
        tauto
      by_cases hc : (((k, v) :: pairs).map Prod.fst).Nodup ∧ ∀ q ∈ (k, v) :: pairs, cv.get q.1 = none
      case neg => rw [if_neg (mt hiff.mp hc), if_neg hc]
      case pos =>
        rw [if_pos (hiff.mpr hc), if_pos hc]
        have hnot : k ∉ pairs.map Prod.fst := (List.nodup_cons.mp hc.1).1
        congr 2
        funext c
        by_cases hck : k = c
        · subst hck
          simp [pairsGet_cons, pairsGet_eq_none hnot]
        · simp [pairsGet_cons, hck, Ne.symm hck]

/-- `mk_column_values` for equal lengths: a panic on a repeated column, otherwise the map binding
each column to the value at its position. -/
theorem mkColumnValues_eq {vs : SqlValues} {cs : List String} (hlen : vs.values.length = cs.length) :
    vs.mkColumnValues cs =
      if cs.Nodup then .ok ⟨pairsGet (cs.zip vs.values)⟩
      else .error (.panic "duplicate column name") := by
  simp [mkColumnValues, insertAll_eq, ColumnValues.default, List.map_fst_zip _ _ hlen.ge]

theorem pairsGet_isSome_iff (pairs : List (String × SqlValue)) (c : String) :
    (pairsGet pairs c).isSome ↔ c ∈ pairs.map Prod.fst := by
  simp [pairsGet, List.find?_isSome]

end SqlValues

namespace StreamColumns

theorem columnValue_eq_ok {cv : ColumnValues} {c : ColumnDefinition} {v : SqlValue}
    (h : columnValue cv c = .ok v) : cv.get c.columnName = some v := by
  unfold columnValue at h
  split at h
  · cases h
  · split at h
    · cases h; assumption
    · cases h

theorem columnValue_eq_ok_iff {cv : ColumnValues} {c : ColumnDefinition} {v : SqlValue} :
    columnValue cv c = .ok v ↔ cv.get c.columnName = some v ∧ v.fits c = true := by
  rcases h : cv.get c.columnName with _ | w
  · simp [columnValue, h]
  · cases hf : w.fits c <;> simp [columnValue, h, hf] <;> rintro rfl <;> exact hf

theorem new_eq_ok_iff {sm : StreamModel} {cv : ColumnValues} {sc : StreamColumns} :
    new sm cv = .ok sc ↔ sc.streamModel = sm ∧ sm.shape.mapM (columnValue cv) = .ok sc.values := by
  obtain ⟨sm', values⟩ := sc
  cases hm : sm.shape.mapM (columnValue cv) <;> simp only [new, hm, Except.map] <;> simp [eq_comm]

/-- The columns `StreamColumns::new` builds are the stream's shape, each holding the value set
for its name. -/
theorem new_eq_ok {sm : StreamModel} {cv : ColumnValues} {sc : StreamColumns}
    (h : new sm cv = .ok sc) :
    sc.streamModel = sm ∧
      List.Forall₂ (fun c v => cv.get c.columnName = some v) sm.shape sc.values := by
  unfold new at h
  cases hm : sm.shape.mapM (columnValue cv) with
  | error e => rw [hm] at h; cases h
  | ok values =>
    simp only [hm, Except.map, Except.ok.injEq] at h
    subst h
    exact ⟨rfl, (mapM_eq_ok_iff.mp hm).imp fun _ _ => columnValue_eq_ok⟩

end StreamColumns

/-- A row over columns that hold the values `cv` sets gives `cv`'s value for every column name
of its shape. -/
theorem Row.get_eq {row : Row} {cv : ColumnValues}
    (h : List.Forall₂ (fun c v => cv.get c.columnName = some v) row.cols.streamModel.shape
      row.cols.values)
    {n : String} (hn : n ∈ row.cols.streamModel.shape.map (·.columnName)) :
    row.get n = cv.get n := by
  obtain ⟨⟨⟨name, shape⟩, values⟩⟩ := row
  simp only [Row.get] at h hn ⊢
  induction h with
  | nil => simp at hn
  | @cons c v shape values hcv _ ih =>
    by_cases hc : c.columnName = n
    · simp [hc, ← hcv]
    · simp only [List.map_cons, List.mem_cons, Ne.symm hc, false_or] at hn
      simpa [hc] using ih hn

namespace SqlValues

theorem intoRow_eq_ok {vs : SqlValues} {sm : StreamModel} {cs : List String} {row : Row}
    (h : vs.intoRow sm cs = .ok row) :
    vs.values.length = cs.length ∧
      ∃ cv, vs.mkColumnValues cs = .ok cv ∧ StreamColumns.new sm cv = .ok row.cols := by
  unfold intoRow at h
  split_ifs at h with hlen
  refine ⟨hlen, ?_⟩
  cases hm : vs.mkColumnValues cs with
  | error f => simp [hm] at h
  | ok cv =>
    cases hn : StreamColumns.new sm cv with
    | error e => simp [hm, hn, Except.map] at h
    | ok sc =>
      simp only [hm, hn, expectOk_ok, Except.map, Except.ok.injEq] at h
      subst h
      exact ⟨cv, rfl, hn⟩

theorem intoRow_eq_ok_iff_new {vs : SqlValues} {sm : StreamModel} {cs : List String} {row : Row} :
    vs.intoRow sm cs = .ok row ↔ vs.values.length = cs.length ∧ cs.Nodup ∧
      StreamColumns.new sm ⟨pairsGet (cs.zip vs.values)⟩ = .ok row.cols := by
  obtain ⟨sc⟩ := row
  unfold intoRow
  by_cases hlen : vs.values.length = cs.length
  · rw [if_pos hlen, mkColumnValues_eq hlen]
    by_cases hnd : cs.Nodup
    · cases hnew : StreamColumns.new sm ⟨pairsGet (cs.zip vs.values)⟩ <;>
        simp [hlen, hnd, hnew, Except.map]
    · simp [hnd]
  · simp [hlen]

/-- `into_row` returns no `Err`: it panics exactly for the causes its "# Panics" lists, a
length mismatch, a repeated column name, or a map `StreamColumns::new` refuses for the stream's
shape, each with its own message. -/
theorem intoRow_eq_error_iff (vs : SqlValues) (sm : StreamModel) (cs : List String) (f : Fault) :
    vs.intoRow sm cs = .error f ↔
      (vs.values.length ≠ cs.length ∧ f = .panic "assertion `left == right` failed") ∨
      (vs.values.length = cs.length ∧ ¬ cs.Nodup ∧ f = .panic "duplicate column name") ∨
      (vs.values.length = cs.length ∧ cs.Nodup ∧
        (∃ e, StreamColumns.new sm ⟨pairsGet (cs.zip vs.values)⟩ = .error e) ∧
        f = .panic "type or shape mismatch? must be checked on pump creation") := by
  unfold intoRow
  by_cases hlen : vs.values.length = cs.length
  · rw [if_pos hlen, mkColumnValues_eq hlen]
    by_cases hnd : cs.Nodup
    · cases hnew : StreamColumns.new sm ⟨pairsGet (cs.zip vs.values)⟩ <;>
        simp [hlen, hnd, hnew, Except.map, eq_comm]
    · simp [hlen, hnd, eq_comm]
  · simp [hlen, eq_comm]

/-- `into_row` returns a row exactly when the tuple is as long as `column_order`, the order
repeats no name, and every column of the stream's shape, in the shape's order, takes the value at
its name's position in `column_order`, a value that fits the column. -/
theorem intoRow_eq_ok_iff (vs : SqlValues) (sm : StreamModel) (cs : List String) (row : Row) :
    vs.intoRow sm cs = .ok row ↔
      vs.values.length = cs.length ∧ cs.Nodup ∧ row.cols.streamModel = sm ∧
        List.Forall₂ (fun c v => vs.values[cs.indexOf c.columnName]? = some v ∧ v.fits c = true)
          sm.shape row.cols.values := by
  rw [intoRow_eq_ok_iff_new, StreamColumns.new_eq_ok_iff, mapM_eq_ok_iff]
  refine and_congr_right fun hlen => ?_
  simp only [StreamColumns.columnValue_eq_ok_iff, pairsGet_zip_eq_getElem?_indexOf hlen]

/-- `into_row` depends on the tuple only through the value it pairs with each name: reordering
`column_order` and the tuple's values together gives the same row, or the same panic. -/
theorem intoRow_perm (sm : StreamModel) {vs vs' : SqlValues} {cs cs' : List String}
    (hlen : vs.values.length = cs.length) (hlen' : vs'.values.length = cs'.length)
    (hperm : (cs.zip vs.values).Perm (cs'.zip vs'.values)) :
    vs.intoRow sm cs = vs'.intoRow sm cs' := by
  have hkeys : cs.Perm cs' := by
    simpa only [List.map_fst_zip _ _ hlen.ge, List.map_fst_zip _ _ hlen'.ge] using hperm.map Prod.fst
  unfold intoRow
  rw [if_pos hlen, if_pos hlen', mkColumnValues_eq hlen, mkColumnValues_eq hlen']
  by_cases hnd : cs.Nodup
  · rw [if_pos hnd, if_pos (hkeys.nodup_iff.mp hnd),
      pairsGet_perm (by rwa [List.map_fst_zip _ _ hlen.ge]) hperm]
  · rw [if_neg hnd, if_neg (mt hkeys.nodup_iff.mpr hnd)]

/-- `SELECT c1, c2` and `SELECT c2, c1` into the same stream commit the same row. -/
theorem intoRow_perm_swap :
    (⟨[.notNull (.integer 10), .notNull (.text "a")]⟩ : SqlValues).values.length =
        ["c1", "c2"].length ∧
      (⟨[.notNull (.text "a"), .notNull (.integer 10)]⟩ : SqlValues).values.length =
        ["c2", "c1"].length ∧
      (["c1", "c2"].zip [SqlValue.notNull (.integer 10), .notNull (.text "a")]).Perm
        (["c2", "c1"].zip [SqlValue.notNull (.text "a"), .notNull (.integer 10)]) ∧
      (⟨[.notNull (.integer 10), .notNull (.text "a")]⟩ : SqlValues).intoRow
          ⟨"s", [⟨"c1", .integer, false⟩, ⟨"c2", .text, false⟩]⟩ ["c1", "c2"] =
        (⟨[.notNull (.text "a"), .notNull (.integer 10)]⟩ : SqlValues).intoRow
          ⟨"s", [⟨"c1", .integer, false⟩, ⟨"c2", .text, false⟩]⟩ ["c2", "c1"] :=
  ⟨rfl, rfl, .swap _ _ _, intoRow_perm _ rfl rfl (.swap _ _ _)⟩

/-- The tuple of `into_row`'s doc example, `fields = (10, 20, 30)`. -/
def docFields : SqlValues := ⟨[.notNull (.integer 10), .notNull (.integer 20), .notNull (.integer 30)]⟩

/-- The doc example's `column_order`, `(c2, c3, c1)`. -/
def docColumnOrder : List String := ["c2", "c3", "c1"]

/-- A stream of the doc example's shape `(c1, c2, c3)`, all integer columns. -/
def docStream : StreamModel :=
  ⟨"s", [⟨"c1", .integer, false⟩, ⟨"c2", .integer, false⟩, ⟨"c3", .integer, false⟩]⟩

/-- `into_row`'s own example gives the row `(fields[2], fields[0], fields[1])` in shape order. -/
example : (docFields.intoRow docStream docColumnOrder).map (fun row => row.cols.values) =
    .ok [.notNull (.integer 30), .notNull (.integer 10), .notNull (.integer 20)] := rfl

end SqlValues

end SpringQL

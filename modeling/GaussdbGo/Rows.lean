import Mathlib

/-!
# gaussdbgo — `RowToStructByName`: matching struct fields to columns

`namedStructRowScanner.ScanRow` computes, for each column of the row, the
path of the struct field it is scanned into. `computeNamedStructFields` walks
the struct's fields in order, into embedded structs, and writes each field's
path at the position `fieldPosByName` finds for its column name: the `db` tag
compared verbatim, or else the Go name compared by `strings.EqualFold` with
underscores removed. A later field that finds the same column overwrites the
earlier one's path.

A struct type is modelled as the tree of its fields. Go strings are lists of
characters; `strings.EqualFold` is a parameter, as only its results matter.
The cache `namedStructFieldMap` keyed by the type and the column names is
left out: it returns what the computation returned for the same key.
-/

namespace GaussdbGo

/-- A field of a struct type. -/
inductive StructField where
  /-- A field that is not an embedded struct: its name, its `db` tag when it
  has one, whether it is exported, and whether it is embedded (an embedded
  pointer or non-struct type). -/
  | leaf (name : List Char) (tag : Option (List Char)) (exported anonymous : Bool)
  /-- An embedded struct, with its fields. -/
  | embedded (fields : List StructField)
  deriving Repr

/-- The errors of `ScanRow` before the scan. -/
inductive ScanRowError where
  /-- `fmt.Errorf("struct doesn't have corresponding row field %s", ...)` -/
  | noCorrespondingField (name : List Char)
  /-- `fmt.Errorf("cannot find field %s in returned row", ...)` -/
  | cannotFindField (name : List Char)
  deriving DecidableEq, Repr

section

variable (equalFold : List Char → List Char → Bool)

/-- `fieldPosByName(fldDescs, field, normalize)`: the first column whose name
matches, `none` for `-1`. -/
def fieldPosByName (fldDescs : List (List Char)) (field : List Char) (normalize : Bool) :
    Option Nat :=
  if normalize then
    fldDescs.findIdx? fun name => equalFold (name.filter (· ≠ '_')) (field.filter (· ≠ '_'))
  else fldDescs.findIdx? (· == field)

/-- The column name a leaf is looked up by and whether it is normalized:
the tag up to its first `,` when there is one, else the field's name;
`none` for the tag `-`, an ignored field. -/
def leafColumn (name : List Char) : Option (List Char) → Option (List Char × Bool)
  | none => some (name, true)
  | some tag =>
    let dbTag := tag.takeWhile (· ≠ ',')
    if dbTag = ['-'] then none else some (dbTag, false)

mutual

/-- The body of the loop of `computeNamedStructFields` for the field `sf` at
index `i`: the updated paths and the field's missing column name (`""` when
none). -/
def computeField (fldDescs : List (List Char)) (fieldStack : List Nat) (i : Nat)
    (fields : List (Option (List Nat))) : StructField → List (Option (List Nat)) × List Char
  | .leaf name tag exported anonymous =>
    -- "Field is unexported, skip it."
    if !exported && !anonymous then (fields, [])
    else
      match leafColumn name tag with
      | none => (fields, [])
      | some (colName, normalize) =>
        match fieldPosByName equalFold fldDescs colName normalize with
        | none => (fields, colName)
        | some fpos => (fields.set fpos (some (fieldStack ++ [i])), [])
  | .embedded sub => computeNamedStructFields fldDescs (fieldStack ++ [i]) 0 fields sub

/-- `computeNamedStructFields` over the fields of a struct from index `i`:
the paths, and the first missing column name of this struct. -/
def computeNamedStructFields (fldDescs : List (List Char)) (fieldStack : List Nat) (i : Nat)
    (fields : List (Option (List Nat))) : List StructField → List (Option (List Nat)) × List Char
  | [] => (fields, [])
  | sf :: rest =>
    let r := computeField fldDescs fieldStack i fields sf
    let r' := computeNamedStructFields fldDescs fieldStack (i + 1) r.1 rest
    -- `if missingField == "" { missingField = ... }`
    (r'.1, if r.2 = [] then r'.2 else r.2)

end

/-- `lookupNamedStructFields(t, fldDescs)`: every column must have a field. -/
def lookupNamedStructFields (t : List StructField) (fldDescs : List (List Char)) :
    Except ScanRowError (List (List Nat) × List Char) :=
  let r := computeNamedStructFields equalFold fldDescs [] 0 (List.replicate fldDescs.length none) t
  match (r.1.zip fldDescs).find? (·.1.isNone) with
  | some (_, name) => .error (.noCorrespondingField name)
  | none => .ok (r.1.map (·.getD []), r.2)

/-- `namedStructRowScanner.ScanRow` up to `rows.Scan`: the path of the
field each column is scanned into. -/
def scanRowTargets (lax : Bool) (t : List StructField) (fldDescs : List (List Char)) :
    Except ScanRowError (List (List Nat)) := do
  let namedStructFields ← lookupNamedStructFields equalFold t fldDescs
  if !lax && namedStructFields.2 ≠ [] then .error (.cannotFindField namedStructFields.2)
  else pure namedStructFields.1

end

/-! ## The walk as a fold over the struct's leaves

The fields `computeNamedStructFields` looks up, in the order it meets them,
each with its path and the column name it is looked up by. The walk is the
fold of their writes, so the path a column ends with is that of the last
field that found it. -/

section

variable (equalFold : List Char → List Char → Bool)

mutual

/-- The leaves the walk looks up under the field `sf` at index `i`. -/
def fieldLeaves (fieldStack : List Nat) (i : Nat) : StructField → List (List Nat × List Char × Bool)
  | .leaf name tag exported anonymous =>
    if !exported && !anonymous then []
    else
      match leafColumn name tag with
      | none => []
      | some c => [(fieldStack ++ [i], c)]
  | .embedded sub => structLeaves (fieldStack ++ [i]) 0 sub

/-- The leaves the walk looks up in the fields from index `i`. -/
def structLeaves (fieldStack : List Nat) (i : Nat) : List StructField → List (List Nat × List Char × Bool)
  | [] => []
  | sf :: rest => fieldLeaves fieldStack i sf ++ structLeaves fieldStack (i + 1) rest

end

/-- The column a leaf finds. -/
def leafPos (fldDescs : List (List Char)) (l : List Nat × List Char × Bool) : Option Nat :=
  fieldPosByName equalFold fldDescs l.2.1 l.2.2

/-- The writes of the leaves, in order. -/
def assignLeaves (fldDescs : List (List Char)) (fields : List (Option (List Nat)))
    (leaves : List (List Nat × List Char × Bool)) : List (Option (List Nat)) :=
  leaves.foldl (fun acc l =>
    match leafPos equalFold fldDescs l with
    | some fpos => acc.set fpos (some l.1)
    | none => acc) fields

/-- The first missing column name, `""` when none. -/
def firstMissing (fldDescs : List (List Char)) : List (List Nat × List Char × Bool) → List Char
  | [] => []
  | l :: rest =>
    let m := if leafPos equalFold fldDescs l = none then l.2.1 else []
    if m = [] then firstMissing fldDescs rest else m

theorem firstMissing_append (fldDescs : List (List Char)) (l₁ l₂ : List (List Nat × List Char × Bool)) :
    firstMissing equalFold fldDescs (l₁ ++ l₂) =
      if firstMissing equalFold fldDescs l₁ = [] then firstMissing equalFold fldDescs l₂
      else firstMissing equalFold fldDescs l₁ := by
  induction l₁ with
  | nil => rfl
  | cons l l₁ ih =>
    simp only [List.cons_append, firstMissing]
    split_ifs <;> simp_all

mutual

theorem computeField_eq (fldDescs : List (List Char)) (fieldStack : List Nat) (i : Nat)
    (fields : List (Option (List Nat))) : ∀ sf : StructField,
    computeField equalFold fldDescs fieldStack i fields sf =
      (assignLeaves equalFold fldDescs fields (fieldLeaves fieldStack i sf),
        firstMissing equalFold fldDescs (fieldLeaves fieldStack i sf))
  | .leaf name tag exported anonymous => by
    simp only [computeField, fieldLeaves]
    split
    · rfl
    · cases hc : leafColumn name tag with
      | none => rfl
      | some c =>
        obtain ⟨colName, normalize⟩ := c
        cases hp : fieldPosByName equalFold fldDescs colName normalize with
        | none => simp [assignLeaves, firstMissing, leafPos, hp]
        | some fpos => simp [assignLeaves, firstMissing, leafPos, hp]
  | .embedded sub => by
    rw [computeField, fieldLeaves]
    exact computeNamedStructFields_eq fldDescs (fieldStack ++ [i]) 0 fields sub

theorem computeNamedStructFields_eq (fldDescs : List (List Char)) (fieldStack : List Nat) (i : Nat)
    (fields : List (Option (List Nat))) : ∀ t : List StructField,
    computeNamedStructFields equalFold fldDescs fieldStack i fields t =
      (assignLeaves equalFold fldDescs fields (structLeaves fieldStack i t),
        firstMissing equalFold fldDescs (structLeaves fieldStack i t))
  | [] => rfl
  | sf :: rest => by
    rw [computeNamedStructFields, structLeaves, computeField_eq fldDescs fieldStack i fields sf]
    simp only
    rw [computeNamedStructFields_eq fldDescs fieldStack (i + 1) _ rest, firstMissing_append]
    simp only [assignLeaves, List.foldl_append]

end

end

/-! ## Which field each column ends with -/

section

variable (equalFold : List Char → List Char → Bool)

/-- The last leaf that finds column `j`. -/
def lastAt (fldDescs : List (List Char)) (j : Nat) (leaves : List (List Nat × List Char × Bool)) :
    Option (List Nat × List Char × Bool) :=
  (leaves.filter fun l => leafPos equalFold fldDescs l = some j).getLast?

theorem lastAt_append_single (fldDescs : List (List Char)) (j : Nat)
    (leaves : List (List Nat × List Char × Bool)) (l : List Nat × List Char × Bool) :
    lastAt equalFold fldDescs j (leaves ++ [l]) =
      if leafPos equalFold fldDescs l = some j then some l else lastAt equalFold fldDescs j leaves := by
  unfold lastAt
  rw [List.filter_append]
  split <;> simp_all

theorem mem_of_lastAt {fldDescs : List (List Char)} {j : Nat} {leaves : List (List Nat × List Char × Bool)}
    {l : List Nat × List Char × Bool} (h : lastAt equalFold fldDescs j leaves = some l) :
    l ∈ leaves ∧ leafPos equalFold fldDescs l = some j := by
  have hmem := List.mem_of_getLast? h
  simp only [List.mem_filter, decide_eq_true_eq] at hmem
  exact hmem

/-- A column's position is one of the columns. -/
theorem fieldPosByName_lt {fldDescs : List (List Char)} {field : List Char} {normalize : Bool}
    {j : Nat} (h : fieldPosByName equalFold fldDescs field normalize = some j) : j < fldDescs.length := by
  unfold fieldPosByName at h
  split at h <;> exact (List.findIdx?_eq_some_iff_findIdx_eq.mp h).1

theorem length_assignLeaves (fldDescs : List (List Char)) (fields : List (Option (List Nat)))
    (leaves : List (List Nat × List Char × Bool)) :
    (assignLeaves equalFold fldDescs fields leaves).length = fields.length := by
  induction leaves generalizing fields with
  | nil => rfl
  | cons l leaves ih =>
    simp only [assignLeaves, List.foldl_cons] at ih ⊢
    rw [ih]
    split <;> simp

theorem assignLeaves_append_single (fldDescs : List (List Char)) (fields : List (Option (List Nat)))
    (leaves : List (List Nat × List Char × Bool)) (l : List Nat × List Char × Bool) :
    assignLeaves equalFold fldDescs fields (leaves ++ [l]) =
      match leafPos equalFold fldDescs l with
      | some fpos => (assignLeaves equalFold fldDescs fields leaves).set fpos (some l.1)
      | none => assignLeaves equalFold fldDescs fields leaves := by
  simp only [assignLeaves, List.foldl_append, List.foldl_cons, List.foldl_nil]

/-- After the walk, a column holds the path of the last leaf that found it,
or what it held before. -/
theorem getElem?_assignLeaves (fldDescs : List (List Char)) (fields : List (Option (List Nat)))
    (leaves : List (List Nat × List Char × Bool)) {j : Nat} (hj : j < fields.length) :
    (assignLeaves equalFold fldDescs fields leaves)[j]? =
      some ((lastAt equalFold fldDescs j leaves).elim fields[j] fun l => some l.1) := by
  induction leaves using List.reverseRecOn with
  | nil => simp [assignLeaves, lastAt, hj]
  | append_singleton leaves l ih =>
    have hlen := length_assignLeaves equalFold fldDescs fields leaves
    rw [lastAt_append_single, assignLeaves_append_single]
    split
    · rename_i fpos hpos
      by_cases hfj : fpos = j
      · subst hfj
        rw [List.getElem?_set_self (by rw [hlen]; exact hj)]
        simp [hpos]
      · rw [List.getElem?_set_ne hfj, ih]
        simp [hpos, hfj]
    · rename_i hpos
      rw [ih]
      simp only [hpos, reduceCtorEq, if_false]

end

/-! ## Distinct fields have distinct paths -/

mutual

theorem fieldLeaves_paths (fieldStack : List Nat) (i : Nat) : ∀ sf : StructField,
    (∀ l ∈ fieldLeaves fieldStack i sf, ∃ suffix, l.1 = fieldStack ++ i :: suffix) ∧
      ((fieldLeaves fieldStack i sf).map (·.1)).Nodup
  | .leaf name tag exported anonymous => by
    simp only [fieldLeaves]
    split
    · simp
    · split
      · simp
      · exact ⟨by simp, by simp⟩
  | .embedded sub => by
    obtain ⟨hpre, hnodup⟩ := structLeaves_paths (fieldStack ++ [i]) 0 sub
    refine ⟨fun l hl => ?_, hnodup⟩
    obtain ⟨k, suffix, -, hk⟩ := hpre l hl
    exact ⟨k :: suffix, by rw [hk]; simp⟩

theorem structLeaves_paths (fieldStack : List Nat) (i : Nat) : ∀ t : List StructField,
    (∀ l ∈ structLeaves fieldStack i t, ∃ k suffix, i ≤ k ∧ l.1 = fieldStack ++ k :: suffix) ∧
      ((structLeaves fieldStack i t).map (·.1)).Nodup
  | [] => by simp [structLeaves]
  | sf :: rest => by
    -- the first field's paths go through index `i`, the others' through later ones
    obtain ⟨hpre₁, hnodup₁⟩ := fieldLeaves_paths fieldStack i sf
    obtain ⟨hpre₂, hnodup₂⟩ := structLeaves_paths fieldStack (i + 1) rest
    refine ⟨fun l hl => ?_, ?_⟩
    · rw [structLeaves, List.mem_append] at hl
      rcases hl with hl | hl
      · obtain ⟨suffix, h⟩ := hpre₁ l hl
        exact ⟨i, suffix, Nat.le_refl i, h⟩
      · obtain ⟨k, suffix, hk, h⟩ := hpre₂ l hl
        exact ⟨k, suffix, by omega, h⟩
    · rw [structLeaves, List.map_append, List.nodup_append]
      refine ⟨hnodup₁, hnodup₂, fun a ha b hb hab => ?_⟩
      obtain ⟨l₁, hl₁, rfl⟩ := List.mem_map.mp ha
      obtain ⟨l₂, hl₂, rfl⟩ := List.mem_map.mp hb
      obtain ⟨s₁, h₁⟩ := hpre₁ l₁ hl₁
      obtain ⟨k, s₂, hk, h₂⟩ := hpre₂ l₂ hl₂
      rw [h₁, h₂, List.append_cancel_left_eq, List.cons.injEq] at hab
      omega

end

/-! ## What a successful `RowToStructByName` assigns -/

section

variable (equalFold : List Char → List Char → Bool)

/-- The only leaf that finds a column is the last one to find it. -/
theorem lastAt_of_unique {fldDescs : List (List Char)} {j : Nat}
    {leaves : List (List Nat × List Char × Bool)} {l : List Nat × List Char × Bool} (hl : l ∈ leaves)
    (hpos : leafPos equalFold fldDescs l = some j)
    (huniq : ∀ l' ∈ leaves, leafPos equalFold fldDescs l' = some j → l' = l) :
    lastAt equalFold fldDescs j leaves = some l := by
  have hne : leaves.filter (fun l => leafPos equalFold fldDescs l = some j) ≠ [] :=
    List.ne_nil_of_mem (List.mem_filter.mpr ⟨hl, by simpa using hpos⟩)
  obtain ⟨x, hx⟩ := Option.ne_none_iff_exists'.mp (mt List.getLast?_eq_none_iff.mp hne)
  obtain ⟨hxl, hxpos⟩ := mem_of_lastAt equalFold (l := x) hx
  unfold lastAt
  rw [hx, huniq x hxl hxpos]

/-- A non-lax scan that succeeds: every column holds the path of the last
leaf that found it, and no leaf with a non-empty column name went
unfound. -/
theorem scanRowTargets_ok {t : List StructField} {fldDescs : List (List Char)}
    {targets : List (List Nat)} (h : scanRowTargets equalFold false t fldDescs = .ok targets) :
    targets.length = fldDescs.length ∧ firstMissing equalFold fldDescs (structLeaves [] 0 t) = [] ∧
      ∀ j < fldDescs.length, ∃ l, lastAt equalFold fldDescs j (structLeaves [] 0 t) = some l ∧
        targets[j]? = some l.1 := by
  set leaves := structLeaves [] 0 t
  set fields := assignLeaves equalFold fldDescs (List.replicate fldDescs.length none) leaves with hfields
  have hflen : fields.length = fldDescs.length := by
    rw [hfields, length_assignLeaves, List.length_replicate]
  simp only [scanRowTargets, lookupNamedStructFields, computeNamedStructFields_eq] at h
  rw [← hfields] at h
  split at h
  · cases h
  · rename_i hfind
    simp only [Bool.not_false, Bool.true_and, bind, Except.bind, decide_eq_true_eq] at h
    split at h
    · cases h
    · rename_i hmiss
      simp only [pure, Except.pure, Except.ok.injEq] at h
      subst h
      refine ⟨by rw [List.length_map, hflen], by simpa using hmiss, fun j hj => ?_⟩
      have hget := getElem?_assignLeaves equalFold fldDescs (List.replicate fldDescs.length none)
        leaves (j := j) (by simpa using hj)
      rw [← hfields] at hget
      cases hlast : lastAt equalFold fldDescs j leaves with
      | none =>
        -- the column kept its `nil` path, which the check after the walk rejects
        rw [hlast] at hget
        have hmem : (fields[j], fldDescs[j]) ∈ fields.zip fldDescs := by
          rw [List.mem_iff_getElem]
          exact ⟨j, by simp [hflen, hj], by simp⟩
        have := List.find?_eq_none.mp hfind _ hmem
        simp [List.getElem?_eq_getElem (show j < fields.length by omega)] at hget
        simp [hget] at this
      | some l =>
        rw [hlast] at hget
        exact ⟨l, rfl, by simp [hget]⟩

/-- `RowToStructByName` succeeds with every column scanned into a leaf that
found it; each field is scanned from exactly one column exactly when each
field finds a column that no other field finds. -/
theorem rowToStructByName_assignment (t : List StructField) (fldDescs : List (List Char))
    (targets : List (List Nat)) (h : scanRowTargets equalFold false t fldDescs = .ok targets) :
    (∀ j < fldDescs.length, ∃ l ∈ structLeaves [] 0 t,
        leafPos equalFold fldDescs l = some j ∧ targets[j]? = some l.1) ∧
      ((∀ l ∈ structLeaves [] 0 t, ∃! j : Nat, targets[j]? = some l.1) ↔
        ∀ l ∈ structLeaves [] 0 t, ∃ j, leafPos equalFold fldDescs l = some j ∧
          ∀ l' ∈ structLeaves [] 0 t, leafPos equalFold fldDescs l' = some j → l' = l) := by
  obtain ⟨hlen, -, hcol⟩ := scanRowTargets_ok equalFold h
  have hinj := List.inj_on_of_nodup_map (structLeaves_paths [] 0 t).2
  -- a leaf is scanned from column `j` exactly when it is the last to find `j`
  have hassigned : ∀ l ∈ structLeaves [] 0 t, ∀ j : Nat,
      targets[j]? = some l.1 ↔ lastAt equalFold fldDescs j (structLeaves [] 0 t) = some l := by
    intro l hl j
    by_cases hj : j < fldDescs.length
    · obtain ⟨l', hl', ht⟩ := hcol j hj
      rw [ht, hl', Option.some.injEq, Option.some.injEq]
      exact ⟨fun he => hinj (mem_of_lastAt equalFold hl').1 hl he, fun he => he ▸ rfl⟩
    · have hnone : targets[j]? = none := List.getElem?_eq_none (by omega)
      rw [hnone]
      refine ⟨fun h => (nomatch h), fun hl' => absurd ?_ hj⟩
      exact fieldPosByName_lt equalFold (mem_of_lastAt equalFold hl').2
  refine ⟨fun j hj => ?_, ⟨fun hall l hl => ?_, fun hall l hl => ?_⟩⟩
  · obtain ⟨l, hl, ht⟩ := hcol j hj
    obtain ⟨hmem, hpos⟩ := mem_of_lastAt equalFold hl
    exact ⟨l, hmem, hpos, ht⟩
  · -- a leaf scanned from `j` is the last to find `j`; another leaf finding `j` is scanned from `j` too
    obtain ⟨j, hj, -⟩ := hall l hl
    have hlast := (hassigned l hl j).mp hj
    refine ⟨j, (mem_of_lastAt equalFold hlast).2, fun l' hl' hpos' => ?_⟩
    obtain ⟨j', hj', -⟩ := hall l' hl'
    have hlast' := (hassigned l' hl' j').mp hj'
    have hjj : j' = j := by
      have := (mem_of_lastAt equalFold hlast').2
      rw [hpos'] at this
      exact (Option.some.inj this).symm
    rw [hjj, hlast] at hlast'
    exact (Option.some.inj hlast').symm
  · obtain ⟨j, hpos, huniq⟩ := hall l hl
    have hlast := lastAt_of_unique equalFold hl hpos huniq
    refine ⟨j, (hassigned l hl j).mpr hlast, fun j' hj' => ?_⟩
    have := (mem_of_lastAt equalFold ((hassigned l hl j').mp hj')).2
    rw [hpos] at this
    exact (Option.some.inj this).symm


/-- Two fields tagged `db:"x"` against the one column `x`: the scan succeeds
with the column scanned into the second field, and the first field is
scanned from no column. -/
theorem rowToStructByName_assignment_shared_tag :
    scanRowTargets (fun _ _ => false) false
        [.leaf ['A'] (some ['x']) true false, .leaf ['B'] (some ['x']) true false] [['x']] = .ok [[1]] ∧
      ¬ ∀ l ∈ structLeaves [] 0 [.leaf ['A'] (some ['x']) true false, .leaf ['B'] (some ['x']) true false],
        ∃! j : Nat, ([[1]] : List (List Nat))[j]? = some l.1 := by
  have h : scanRowTargets (fun _ _ => false) false
      [.leaf ['A'] (some ['x']) true false, .leaf ['B'] (some ['x']) true false] [['x']] = .ok [[1]] := by
    decide
  refine ⟨h, fun hall => ?_⟩
  obtain ⟨j, hpos, huniq⟩ := (rowToStructByName_assignment _ _ _ _ h).2.mp hall ([0], ['x'], false)
    (by decide)
  have hA : leafPos (fun _ _ => false) [['x']] ([0], ['x'], false) = some 0 := by decide
  have hB : leafPos (fun _ _ => false) [['x']] ([1], ['x'], false) = some 0 := by decide
  rw [hA, Option.some.injEq] at hpos
  subst hpos
  have := huniq ([1], ['x'], false) (by decide) hB
  simp at this

end

end GaussdbGo

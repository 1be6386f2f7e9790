import Mathlib.Data.String.Basic
import Rivloom.Lib.SortedMap

/-!
# World-state snapshots and their patches

What a session has told the model about the world is kept as a snapshot, one JSON value
for each section (`context/world_state/mod.rs`). A rollout stores the first snapshot in
full and after that the merge patches from each snapshot to the next (RFC 7386): a null
takes a field out, an object is merged field by field, anything else replaces what was
there. A session that is resumed replays the patches.

A patch cannot say that a field is null. So the nulls are taken out of a snapshot before
it is stored (`Rivloom.Session.Value.removeNullObjectFields`), everywhere except inside of
arrays, which are replaced whole; a snapshot without them is `Rivloom.Session.Value.NullFree`.

Both the loop that makes a patch and the one that applies it go through the fields of an
object one after the other and change a map on the way. What they come to is said field by
field (`Rivloom.Session.Value.lookup_addChanges`, `Rivloom.Session.Value.lookup_applyFields`),
and since a map is what it answers, the rest is an induction on the value.

Numbers are of any type, since nothing is done with them but to compare them.
-/

namespace Rivloom.Session

open SortedMap (lookup_cons lookup_erase lookup_insert mem_insert mem_of_lookup)

/-! ### Values -/

/-- **A JSON value.** The fields of an object are in the order of their names, see
`Rivloom.Session.Value.Ordered`. -/
inductive Value (ν : Type) where
  | null
  | bool (b : Bool)
  | number (n : ν)
  | string (s : String)
  | array (items : List (Value ν))
  | object (fields : List (String × Value ν))

namespace Value

variable {ν : Type} {value : Value ν}

section Equality

variable [DecidableEq ν]

mutual

/-- Two values are the same. -/
def same : Value ν → Value ν → Bool
  | .null, .null => true
  | .bool a, .bool b => a == b
  | .number a, .number b => decide (a = b)
  | .string a, .string b => a == b
  | .array as, .array bs => sameItems as bs
  | .object as, .object bs => sameFields as bs
  | _, _ => false

def sameItems : List (Value ν) → List (Value ν) → Bool
  | [], [] => true
  | a :: as, b :: bs => same a b && sameItems as bs
  | _, _ => false

def sameFields : List (String × Value ν) → List (String × Value ν) → Bool
  | [], [] => true
  | (k, a) :: as, (l, b) :: bs => k == l && same a b && sameFields as bs
  | _, _ => false

end

mutual

theorem same_iff : ∀ a b : Value ν, a.same b = true ↔ a = b
  | .null, b => by cases b <;> simp [same]
  | .bool _, b => by cases b <;> simp [same]
  | .number _, b => by cases b <;> simp [same]
  | .string _, b => by cases b <;> simp [same]
  | .array as, b => by
    cases b with
    | array bs => rw [same, sameItems_iff as bs, Value.array.injEq]
    | _ => simp [same]
  | .object as, b => by
    cases b with
    | object bs => rw [same, sameFields_iff as bs, Value.object.injEq]
    | _ => simp [same]

theorem sameItems_iff : ∀ as bs : List (Value ν), sameItems as bs = true ↔ as = bs
  | [], bs => by cases bs <;> simp [sameItems]
  | a :: as, bs => by
    cases bs with
    | nil => simp [sameItems]
    | cons b bs => rw [sameItems, Bool.and_eq_true, same_iff a b, sameItems_iff as bs,
        List.cons.injEq]

theorem sameFields_iff : ∀ as bs : List (String × Value ν), sameFields as bs = true ↔ as = bs
  | [], bs => by cases bs <;> simp [sameFields]
  | (k, a) :: as, bs => by
    cases bs with
    | nil => simp [sameFields]
    | cons b bs =>
      obtain ⟨l, b⟩ := b
      rw [sameFields, Bool.and_eq_true, Bool.and_eq_true, beq_iff_eq, same_iff a b,
        sameFields_iff as bs, List.cons.injEq, Prod.mk.injEq]

end

instance : DecidableEq (Value ν) := fun a b => decidable_of_iff _ (same_iff a b)

end Equality

/-- **The fields of every object are in order**, and have different names. -/
inductive Ordered : Value ν → Prop
  | null : Ordered .null
  | bool (b : Bool) : Ordered (.bool b)
  | number (n : ν) : Ordered (.number n)
  | string (s : String) : Ordered (.string s)
  | array {items : List (Value ν)} (each : ∀ item ∈ items, Ordered item) : Ordered (.array items)
  | object {fields : List (String × Value ν)} (sorted : SortedMap.Sorted fields)
      (each : ∀ field ∈ fields, Ordered field.2) : Ordered (.object fields)

/-- **No field is null**, outside of arrays. -/
inductive NullFree : Value ν → Prop
  | null : NullFree .null
  | bool (b : Bool) : NullFree (.bool b)
  | number (n : ν) : NullFree (.number n)
  | string (s : String) : NullFree (.string s)
  | array (items : List (Value ν)) : NullFree (.array items)
  | object {fields : List (String × Value ν)} (present : ∀ field ∈ fields, field.2 ≠ .null)
      (each : ∀ field ∈ fields, NullFree field.2) : NullFree (.object fields)

def isNull : Value ν → Bool
  | .null => true
  | _ => false

theorem isNull_iff : value.isNull = true ↔ value = .null := by
  cases value <;> simp [isNull]

/-- The fields of an object; another value has none. -/
def fields : Value ν → List (String × Value ν)
  | .object fields => fields
  | _ => []

theorem Ordered.sorted_fields (h : value.Ordered) :
    SortedMap.Sorted value.fields := by
  cases h with
  | object hsorted _ => exact hsorted
  | _ => exact List.Pairwise.nil

theorem Ordered.of_mem_fields (h : value.Ordered) {field : String × Value ν}
    (hmem : field ∈ value.fields) : field.2.Ordered := by
  cases h with
  | object _ heach => exact heach _ hmem
  | _ => cases hmem

theorem Ordered.of_lookup {fields : List (String × Value ν)} (h : (Value.object fields).Ordered)
    {key : String} {value : Value ν} (hvalue : fields.lookup key = some value) : value.Ordered :=
  h.of_mem_fields (mem_of_lookup hvalue)

/-! ### Taking out nulls -/

mutual

/-- Take the null fields out, outside of arrays. -/
def removeNullObjectFields : Value ν → Value ν
  | .object fields => .object (keepFields fields)
  | value => value

/-- The fields that are not null, each without its null fields. -/
def keepFields : List (String × Value ν) → List (String × Value ν)
  | [] => []
  | (key, value) :: rest =>
    if value.isNull then keepFields rest
    else (key, value.removeNullObjectFields) :: keepFields rest

end

theorem keepFields_eq (fields : List (String × Value ν)) :
    keepFields fields = (fields.filter fun field => !field.2.isNull).map
      fun field => (field.1, field.2.removeNullObjectFields) := by
  induction fields with
  | nil => rfl
  | cons field rest ih =>
    obtain ⟨key, value⟩ := field
    rw [keepFields, List.filter_cons]
    cases value.isNull with
    | true => exact ih
    | false => exact congrArg (List.cons _) ih

theorem mem_keepFields {fields : List (String × Value ν)} {field : String × Value ν}
    (h : field ∈ keepFields fields) : ∃ value, (field.1, value) ∈ fields ∧ value ≠ .null ∧
      field.2 = value.removeNullObjectFields := by
  rw [keepFields_eq] at h
  obtain ⟨⟨key, value⟩, hmem, rfl⟩ := List.mem_map.mp h
  obtain ⟨hmem, hnull⟩ := List.mem_filter.mp hmem
  refine ⟨value, hmem, ?_, rfl⟩
  rintro rfl
  cases hnull

theorem removeNullObjectFields_ne_null (h : value ≠ .null) :
    value.removeNullObjectFields ≠ .null := by
  cases value with
  | object fields =>
    rw [removeNullObjectFields]
    nofun
  | null => exact absurd rfl h
  | _ =>
    rw [removeNullObjectFields]
    · exact h
    · nofun

/-- **What is left has no null field**, and its fields are still in order. -/
theorem Ordered.removeNullObjectFields (h : value.Ordered) :
    value.removeNullObjectFields.Ordered ∧ value.removeNullObjectFields.NullFree := by
  induction h with
  | object hsorted _ ih =>
    rw [Value.removeNullObjectFields]
    constructor
    · refine .object ?_ ?_
      · rw [keepFields_eq]
        exact List.pairwise_map.mpr (List.Pairwise.filter _ hsorted)
      · intro field hmem
        obtain ⟨value, hvalue, -, heq⟩ := mem_keepFields hmem
        rw [heq]
        exact (ih _ hvalue).1
    · refine .object ?_ ?_
      · intro field hmem
        obtain ⟨value, -, hne, heq⟩ := mem_keepFields hmem
        rw [heq]
        exact removeNullObjectFields_ne_null hne
      · intro field hmem
        obtain ⟨value, hvalue, -, heq⟩ := mem_keepFields hmem
        rw [heq]
        exact (ih _ hvalue).2
  | null => exact ⟨.null, .null⟩
  | bool b => exact ⟨.bool b, .bool b⟩
  | number n => exact ⟨.number n, .number n⟩
  | string s => exact ⟨.string s, .string s⟩
  | array heach _ => exact ⟨.array heach, .array _⟩

/-! ### Making a patch -/

/-- A field that is gone is null in the patch. -/
def addRemoval (current patch : List (String × Value ν)) (field : String × Value ν) :
    List (String × Value ν) :=
  if (current.lookup field.1).isNone then SortedMap.insert field.1 .null patch else patch

/-- The fields that a patch takes out. -/
def removals (current previous : List (String × Value ν)) : List (String × Value ν) :=
  previous.foldl (addRemoval current) []

section Patch

variable [DecidableEq ν]

mutual

/-- **The patch from one value to another**, if they are different. -/
def createMergePatch (previous : Value ν) : Value ν → Option (Value ν)
  | .object current =>
    if previous = .object current then none
    else some (.object (addChanges previous.fields (removals current previous.fields) current))
  | current => if previous = current then none else some current

/-- Add what a patch changes to a patch that takes fields out. -/
def addChanges (previous patch : List (String × Value ν)) :
    List (String × Value ν) → List (String × Value ν)
  | [] => patch
  | (key, current) :: rest =>
    addChanges previous
      (match previous.lookup key with
      | none => SortedMap.insert key current patch
      | some value =>
        match createMergePatch value current with
        | some change => SortedMap.insert key change patch
        | none => patch)
      rest

end

end Patch

/-! ### Applying a patch -/

mutual

/-- **Apply a patch to a value.** -/
def applyMergePatchValue (target : Value ν) : Value ν → Value ν
  | .object patch => .object (applyFields target.fields patch)
  | patch => patch

/-- Apply the fields of a patch, one after the other. -/
def applyFields (target : List (String × Value ν)) :
    List (String × Value ν) → List (String × Value ν)
  | [] => target
  | (key, value) :: rest =>
    applyFields
      (if value.isNull then SortedMap.erase key target
      else SortedMap.insert key
        (applyMergePatchValue ((target.lookup key).getD .null) value) target)
      rest

end

/-! ### What a patch is, field by field -/

theorem lookup_addRemoval (current patch : List (String × Value ν)) (field : String × Value ν)
    (key : String) : (addRemoval current patch field).lookup key =
      if key = field.1 ∧ (current.lookup key).isNone then some .null else patch.lookup key := by
  rw [addRemoval]
  by_cases hkey : key = field.1
  · subst hkey
    by_cases hnone : (current.lookup field.1).isNone = true
    · simp [hnone, lookup_insert]
    · simp [hnone]
  · split
    · simp [hkey, lookup_insert]
    · simp [hkey]

theorem lookup_removals_from (current previous patch : List (String × Value ν)) (key : String) :
    (previous.foldl (addRemoval current) patch).lookup key =
      if (previous.lookup key).isSome ∧ (current.lookup key).isNone then some .null
      else patch.lookup key := by
  induction previous generalizing patch with
  | nil =>
    rw [if_neg (by rintro ⟨h, -⟩; cases h)]
    rfl
  | cons field rest ih =>
    rw [List.foldl_cons, ih, lookup_addRemoval, lookup_cons]
    by_cases hkey : key = field.1
    · by_cases hnone : (current.lookup key).isNone = true
      · simp [hkey, hkey ▸ hnone]
      · simp [hnone]
    · rw [if_neg hkey]
      simp [hkey]

theorem lookup_removals (current previous : List (String × Value ν)) (key : String) :
    (removals current previous).lookup key =
      if (previous.lookup key).isSome ∧ (current.lookup key).isNone then some .null else none :=
  lookup_removals_from current previous [] key

theorem Ordered.insert {fields : List (String × Value ν)} (h : (Value.object fields).Ordered)
    (key : String) {value : Value ν} (hvalue : value.Ordered) :
    (Value.object (SortedMap.insert key value fields)).Ordered := by
  refine .object (h.sorted_fields.insert key value) ?_
  intro field hmem
  rcases mem_insert hmem with rfl | hmem
  · exact hvalue
  · exact h.of_mem_fields hmem

theorem Ordered.erase {fields : List (String × Value ν)} (h : (Value.object fields).Ordered)
    (key : String) : (Value.object (SortedMap.erase key fields)).Ordered :=
  .object (h.sorted_fields.erase key) fun _ hmem => h.of_mem_fields (SortedMap.mem_erase hmem)

theorem Ordered.addRemoval {current patch : List (String × Value ν)}
    (h : (Value.object patch).Ordered) (field : String × Value ν) :
    (Value.object (addRemoval current patch field)).Ordered := by
  rw [Value.addRemoval]
  split
  · exact h.insert _ .null
  · exact h

theorem ordered_removals (current previous : List (String × Value ν)) :
    (Value.object (removals current previous)).Ordered := by
  suffices h : ∀ patch, (Value.object patch).Ordered →
      (Value.object (previous.foldl (Value.addRemoval current) patch)).Ordered from
    h [] (.object List.Pairwise.nil nofun)
  induction previous with
  | nil => exact fun patch h => h
  | cons field rest ih => exact fun patch h => ih _ (h.addRemoval field)

variable (previous : List (String × Value ν))

section Patch

variable [DecidableEq ν]

/-- **The change of one field.** -/
def change (previous current : Option (Value ν)) : Option (Value ν) :=
  match current, previous with
  | none, _ => none
  | some current, none => some current
  | some current, some previous => createMergePatch previous current

theorem lookup_addChanges {current : List (String × Value ν)} (h : SortedMap.Sorted current)
    (patch : List (String × Value ν)) (key : String) :
    (addChanges previous patch current).lookup key =
      (change (previous.lookup key) (current.lookup key)).or (patch.lookup key) := by
  induction current generalizing patch with
  | nil => rw [addChanges]; rfl
  | cons field rest ih =>
    obtain ⟨name, value⟩ := field
    rw [addChanges, ih h.rest, lookup_cons]
    by_cases hkey : key = name
    · subst hkey
      rw [if_pos rfl, show rest.lookup key = none from h.lookup_rest]
      cases previous.lookup key with
      | none =>
        dsimp only [change]
        rw [lookup_insert, if_pos rfl]
        rfl
      | some old =>
        dsimp only [change]
        cases createMergePatch old value with
        | none => rfl
        | some new =>
          dsimp only
          rw [lookup_insert, if_pos rfl]
          rfl
    · rw [if_neg hkey]
      congr 1
      split
      · rw [lookup_insert, if_neg hkey]
      · split
        · rw [lookup_insert, if_neg hkey]
        · rfl

/-- **The patch between two objects**: null where a field is gone, and otherwise its change. -/
theorem lookup_patch {current : List (String × Value ν)} (h : SortedMap.Sorted current)
    (key : String) :
    (addChanges previous (removals current previous) current).lookup key =
      match current.lookup key, previous.lookup key with
      | none, none => none
      | none, some _ => some .null
      | some value, none => some value
      | some value, some old => createMergePatch old value := by
  rw [lookup_addChanges previous h, lookup_removals]
  cases current.lookup key with
  | none =>
    cases previous.lookup key with
    | none => rfl
    | some old => rfl
  | some value =>
    cases previous.lookup key with
    | none => rfl
    | some old =>
      dsimp only [change]
      rw [if_neg (by rintro ⟨-, h⟩; cases h), Option.or_none]

end Patch

/-- **What a patch makes of a field.** -/
def applyField (target : Option (Value ν)) : Option (Value ν) → Option (Value ν)
  | none => target
  | some patch =>
    if patch.isNull then none else some (applyMergePatchValue (target.getD .null) patch)

theorem lookup_applyFields (target : List (String × Value ν)) {patch : List (String × Value ν)}
    (h : SortedMap.Sorted patch) (key : String) :
    (applyFields target patch).lookup key =
      applyField (target.lookup key) (patch.lookup key) := by
  induction patch generalizing target with
  | nil => rw [applyFields]; rfl
  | cons field rest ih =>
    obtain ⟨name, value⟩ := field
    rw [applyFields, ih _ h.rest, lookup_cons]
    by_cases hkey : key = name
    · subst hkey
      rw [if_pos rfl, show rest.lookup key = none from h.lookup_rest]
      dsimp only [applyField]
      split
      · rw [lookup_erase, if_pos rfl]
      · rw [lookup_insert, if_pos rfl]
    · rw [if_neg hkey]
      congr 1
      split
      · rw [lookup_erase, if_neg hkey]
      · rw [lookup_insert, if_neg hkey]

/-! ### Maps stay maps -/

section Patch

variable [DecidableEq ν]

theorem createMergePatch_eq_none (previous current : Value ν) :
    createMergePatch previous current = none ↔ previous = current := by
  rw [createMergePatch.eq_def]
  split
  all_goals
    split
    · next h => exact ⟨fun _ => h, fun _ => rfl⟩
    · next h => exact ⟨nofun, fun heq => absurd heq h⟩

theorem ne_null_of_createMergePatch {previous current patch : Value ν}
    (h : createMergePatch previous current = some patch) (hne : current ≠ .null) :
    patch.isNull = false := by
  rw [createMergePatch.eq_def] at h
  split at h
  · split at h
    · cases h
    · obtain rfl := Option.some.inj h
      rfl
  · split at h
    · cases h
    · obtain rfl := Option.some.inj h
      exact Bool.eq_false_iff.mpr fun hnull => hne (isNull_iff.mp hnull)

theorem Ordered.addChanges {patch current : List (String × Value ν)}
    (hpatch : (Value.object patch).Ordered) (heach : ∀ field ∈ current, field.2.Ordered)
    (hcreate : ∀ field ∈ current, ∀ {old new : Value ν},
      Value.createMergePatch old field.2 = some new → new.Ordered) :
    (Value.object (Value.addChanges previous patch current)).Ordered := by
  induction current generalizing patch with
  | nil =>
    rw [Value.addChanges]
    exact hpatch
  | cons field rest ih =>
    obtain ⟨key, value⟩ := field
    rw [Value.addChanges]
    refine ih ?_ (fun field hmem => heach _ (List.mem_cons_of_mem _ hmem))
      (fun field hmem => hcreate _ (List.mem_cons_of_mem _ hmem))
    split
    · exact hpatch.insert key (heach _ List.mem_cons_self)
    · split
      · next hnew => exact hpatch.insert key (hcreate _ List.mem_cons_self hnew)
      · exact hpatch

/-- **A patch is a map**, as its values are. -/
theorem Ordered.createMergePatch {current : Value ν} (h : current.Ordered) :
    ∀ {previous patch : Value ν}, Value.createMergePatch previous current = some patch →
      patch.Ordered := by
  induction h with
  | object hsorted heach ih =>
    intro previous patch hpatch
    rw [Value.createMergePatch] at hpatch
    split at hpatch
    · cases hpatch
    obtain rfl := Option.some.inj hpatch
    exact .addChanges _ (ordered_removals _ _) heach ih
  | _ =>
    intro previous patch hpatch
    rw [Value.createMergePatch] at hpatch
    swap
    · nofun
    split at hpatch
    · cases hpatch
    obtain rfl := Option.some.inj hpatch
    constructor
    try assumption

end Patch

theorem Ordered.applyFields {target patch : List (String × Value ν)}
    (htarget : (Value.object target).Ordered)
    (happly : ∀ field ∈ patch, ∀ {old : Value ν}, old.Ordered →
      (applyMergePatchValue old field.2).Ordered) :
    (Value.object (Value.applyFields target patch)).Ordered := by
  induction patch generalizing target with
  | nil =>
    rw [Value.applyFields]
    exact htarget
  | cons field rest ih =>
    obtain ⟨key, value⟩ := field
    rw [Value.applyFields]
    refine ih ?_ (fun field hmem => happly _ (List.mem_cons_of_mem _ hmem))
    split
    · exact htarget.erase key
    · refine htarget.insert key (happly _ List.mem_cons_self ?_)
      cases hold : target.lookup key with
      | none => exact .null
      | some old => exact htarget.of_lookup hold

/-- **A map that is patched is a map.** -/
theorem Ordered.applyMergePatchValue {patch : Value ν} (h : patch.Ordered) :
    ∀ {target : Value ν}, target.Ordered → (Value.applyMergePatchValue target patch).Ordered := by
  induction h with
  | object _ _ ih =>
    intro target htarget
    rw [Value.applyMergePatchValue]
    exact .applyFields (.object htarget.sorted_fields fun _ => htarget.of_mem_fields) ih
  | _ =>
    intro target _
    rw [Value.applyMergePatchValue]
    · constructor
      try assumption
    · nofun

/-! ### Patches replay -/

/-- **A value without null fields is copied by a patch**, where nothing was before. -/
theorem NullFree.applyMergePatchValue (h : value.NullFree) :
    value.Ordered → ∀ {target : Value ν}, target.fields = [] →
      Value.applyMergePatchValue target value = value := by
  induction h with
  | @object fields hpresent _ ih =>
    intro hordered target htarget
    rw [Value.applyMergePatchValue, htarget]
    have hsorted : SortedMap.Sorted fields := hordered.sorted_fields
    have hempty : (Value.object ([] : List (String × Value ν))).Ordered :=
      .object List.Pairwise.nil nofun
    have happlied : (Value.object (Value.applyFields [] fields)).Ordered :=
      .applyFields hempty fun field hmem => (hordered.of_mem_fields hmem).applyMergePatchValue
    refine congrArg Value.object (SortedMap.ext happlied.sorted_fields hsorted fun key => ?_)
    rw [lookup_applyFields [] hsorted]
    cases hfield : fields.lookup key with
    | none => rfl
    | some field =>
      have hmem := mem_of_lookup hfield
      have hne : ¬ field.isNull = true := fun hnull => hpresent _ hmem (isNull_iff.mp hnull)
      rw [applyField, if_neg hne]
      exact congrArg some (ih _ hmem (hordered.of_mem_fields hmem) rfl)
  | _ =>
    intro _ target _
    rw [Value.applyMergePatchValue]
    nofun

section Patch

variable [DecidableEq ν]

theorem patch_eq_nil {previous current : List (String × Value ν)}
    (hprevious : (Value.object previous).Ordered) (hcurrent : (Value.object current).Ordered) :
    addChanges previous (removals current previous) current = [] ↔ current = previous := by
  have hsorted : SortedMap.Sorted current := hcurrent.sorted_fields
  have hpatch : (Value.object
      (addChanges previous (removals current previous) current)).Ordered :=
    .addChanges _ (ordered_removals _ _) (fun _ => hcurrent.of_mem_fields)
      fun _ hmem => (hcurrent.of_mem_fields hmem).createMergePatch
  constructor
  · intro hempty
    refine SortedMap.ext hsorted hprevious.sorted_fields fun key => ?_
    have hkey := lookup_patch previous hsorted key
    rw [hempty, List.lookup_nil] at hkey
    change current.lookup key = previous.lookup key
    cases hnew : current.lookup key with
    | none =>
      cases hold : previous.lookup key with
      | none => rfl
      | some old =>
        rw [hnew, hold] at hkey
        cases hkey
    | some value =>
      cases hold : previous.lookup key with
      | none =>
        rw [hnew, hold] at hkey
        cases hkey
      | some old =>
        rw [hnew, hold] at hkey
        exact congrArg some ((createMergePatch_eq_none old value).mp hkey.symm).symm
  · rintro rfl
    refine SortedMap.ext hpatch.sorted_fields List.Pairwise.nil fun key => ?_
    change (addChanges current (removals current current) current).lookup key = none
    rw [lookup_patch current hsorted]
    cases current.lookup key with
    | none => rfl
    | some value => exact (createMergePatch_eq_none value value).mpr rfl

/-- **The fields of a patch lead to the fields of the value it was made for.** -/
theorem applyFields_patch {previous current : List (String × Value ν)}
    (hprevious : (Value.object previous).Ordered) (hcurrent : (Value.object current).Ordered)
    (hfree : (Value.object current).NullFree)
    (ih : ∀ field ∈ current, ∀ {old new : Value ν}, old.Ordered →
      createMergePatch old field.2 = some new → applyMergePatchValue old new = field.2) :
    applyFields previous (addChanges previous (removals current previous) current) = current := by
  have hsorted : SortedMap.Sorted current := hcurrent.sorted_fields
  have hpatch : (Value.object
      (addChanges previous (removals current previous) current)).Ordered :=
    .addChanges _ (ordered_removals _ _) (fun _ => hcurrent.of_mem_fields)
      fun _ hmem => (hcurrent.of_mem_fields hmem).createMergePatch
  have happlied : (Value.object (applyFields previous
      (addChanges previous (removals current previous) current))).Ordered :=
    .applyFields hprevious fun _ hmem => (hpatch.of_mem_fields hmem).applyMergePatchValue
  obtain ⟨hpresent, heach⟩ : (∀ field ∈ current, field.2 ≠ .null) ∧
      ∀ field ∈ current, field.2.NullFree := by
    cases hfree with
    | object hpresent heach => exact ⟨hpresent, heach⟩
  refine SortedMap.ext happlied.sorted_fields hsorted fun key => ?_
  have hpatchSorted : SortedMap.Sorted
      (addChanges previous (removals current previous) current) := hpatch.sorted_fields
  rw [lookup_applyFields _ hpatchSorted, lookup_patch _ hsorted]
  cases hfield : current.lookup key with
  | none =>
    cases previous.lookup key with
    | none => rfl
    | some old => rfl
  | some value =>
    have hmem := mem_of_lookup hfield
    have hordered : value.Ordered := hcurrent.of_lookup hfield
    cases hold : previous.lookup key with
    | none =>
      have hne : ¬ value.isNull = true := fun hnull => hpresent _ hmem (isNull_iff.mp hnull)
      dsimp only [applyField]
      rw [if_neg hne]
      exact congrArg some ((heach _ hmem).applyMergePatchValue hordered rfl)
    | some old =>
      dsimp only
      cases hnew : createMergePatch old value with
      | none =>
        rw [(createMergePatch_eq_none old value).mp hnew]
        rfl
      | some new =>
        have hne : ¬ new.isNull = true :=
          Bool.eq_false_iff.mp (ne_null_of_createMergePatch hnew (hpresent _ hmem))
        dsimp only [applyField]
        rw [if_neg hne]
        exact congrArg some (ih _ hmem (hprevious.of_lookup hold) hnew)

/-- **A patch leads to the value it was made for.** -/
theorem NullFree.applyMergePatchValue_create {current : Value ν} (h : current.NullFree) :
    current.Ordered → ∀ {previous patch : Value ν}, previous.Ordered →
      createMergePatch previous current = some patch →
      Value.applyMergePatchValue previous patch = current := by
  induction h with
  | object hpresent heach ih =>
    intro hcurrent previous patch hprevious hpatch
    rw [createMergePatch] at hpatch
    split at hpatch
    · cases hpatch
    obtain rfl := Option.some.inj hpatch
    rw [Value.applyMergePatchValue]
    have hfields : (Value.object previous.fields).Ordered :=
      .object hprevious.sorted_fields fun _ => hprevious.of_mem_fields
    exact congrArg Value.object (applyFields_patch hfields hcurrent (.object hpresent heach)
      fun _ hmem => ih _ hmem (hcurrent.of_mem_fields hmem))
  | _ =>
    intro _ previous patch _ hpatch
    rw [createMergePatch] at hpatch
    swap
    · nofun
    split at hpatch
    · cases hpatch
    obtain rfl := Option.some.inj hpatch
    rw [Value.applyMergePatchValue]
    nofun

end Patch

end Value

/-! ### Snapshots -/

variable {ν : Type}

/-- **A map from names to values.** -/
structure ValueMap (ν : Type) where
  fields : List (String × Value ν)
  ordered : (Value.object fields).Ordered

namespace ValueMap

theorem ext {m m' : ValueMap ν} (h : m.fields = m'.fields) : m = m' := by
  obtain ⟨fields, _⟩ := m
  obtain ⟨fields', _⟩ := m'
  cases h
  rfl

instance [DecidableEq ν] : DecidableEq (ValueMap ν) := fun m m' =>
  decidable_of_iff (m.fields = m'.fields) ⟨ext, fun h => h ▸ rfl⟩

def empty : ValueMap ν := ⟨[], .object List.Pairwise.nil nofun⟩

def insert (m : ValueMap ν) (key : String) {value : Value ν} (h : value.Ordered) : ValueMap ν :=
  ⟨SortedMap.insert key value m.fields, m.ordered.insert key h⟩

end ValueMap

/-- **What a section of the world is serialized to**, if it is to be kept and can be. -/
structure WorldStateSection (ν : Type) where
  id : String
  value : Option (Value ν)
  ordered : ∀ v ∈ value, v.Ordered

/-- What is kept of a section: its value without null fields, unless it is null itself. -/
def WorldStateSection.snapshot (s : WorldStateSection ν) : Option (Value ν) :=
  (s.value.map Value.removeNullObjectFields).filter fun value => !value.isNull

theorem WorldStateSection.of_snapshot {s : WorldStateSection ν} {value : Value ν}
    (h : s.snapshot = some value) : value.Ordered ∧ value ≠ .null ∧ value.NullFree := by
  obtain ⟨hvalue, hnull⟩ := Option.filter_eq_some_iff.mp h
  obtain ⟨raw, hraw, rfl⟩ := Option.map_eq_some_iff.mp hvalue
  obtain ⟨hordered, hfree⟩ := (s.ordered raw hraw).removeNullObjectFields
  refine ⟨hordered, ?_, hfree⟩
  intro heq
  rw [heq] at hnull
  cases hnull

/-- **A snapshot**: the values of the sections. -/
structure WorldStateSnapshot (ν : Type) where
  sections : ValueMap ν
  deriving DecidableEq

namespace WorldStateSnapshot

/-- A snapshot as a JSON object. -/
def intoObject (snapshot : WorldStateSnapshot ν) : ValueMap ν := snapshot.sections

/-- No field of a snapshot is null, its sections among them. -/
def NullFree (snapshot : WorldStateSnapshot ν) : Prop :=
  (Value.object snapshot.sections.fields).NullFree

section Patch

variable [DecidableEq ν]

/-- **The merge patch from one snapshot to another**, if they are different. -/
def mergePatchFrom (current previous : WorldStateSnapshot ν) : Option (ValueMap ν) :=
  let patch := Value.addChanges previous.sections.fields
    (Value.removals current.sections.fields previous.sections.fields) current.sections.fields
  if patch = [] then none
  else some ⟨patch, .addChanges _ (Value.ordered_removals _ _)
    (fun _ => current.sections.ordered.of_mem_fields)
    fun _ hmem => (current.sections.ordered.of_mem_fields hmem).createMergePatch⟩

end Patch

/-- **Apply a merge patch.** -/
def applyMergePatch (snapshot : WorldStateSnapshot ν) (patch : ValueMap ν) :
    WorldStateSnapshot ν where
  sections := ⟨Value.applyFields snapshot.sections.fields patch.fields,
    .applyFields snapshot.sections.ordered
      fun _ hmem => (patch.ordered.of_mem_fields hmem).applyMergePatchValue⟩

end WorldStateSnapshot

/-- Put the snapshot of a section into a map. -/
def ValueMap.addSection (sections : ValueMap ν) (s : WorldStateSection ν) : ValueMap ν :=
  match h : s.snapshot with
  | some _ => sections.insert s.id (WorldStateSection.of_snapshot h).1
  | none => sections

/-- **The snapshot of the world.** -/
def snapshot (worldState : List (WorldStateSection ν)) : WorldStateSnapshot ν where
  sections := worldState.foldl ValueMap.addSection .empty

theorem nullFree_addSection {sections : ValueMap ν} (h : (Value.object sections.fields).NullFree)
    (s : WorldStateSection ν) : (Value.object (sections.addSection s).fields).NullFree := by
  rw [ValueMap.addSection]
  split
  swap
  · exact h
  next value hvalue =>
  obtain ⟨-, hne, hfree⟩ := WorldStateSection.of_snapshot hvalue
  cases h with
  | object hpresent heach =>
    refine .object ?_ ?_
    · intro field hmem
      rcases mem_insert hmem with rfl | hmem
      · exact hne
      · exact hpresent _ hmem
    · intro field hmem
      rcases mem_insert hmem with rfl | hmem
      · exact hfree
      · exact heach _ hmem

/-- **The snapshot of the world has no null field.** -/
theorem nullFree_snapshot (worldState : List (WorldStateSection ν)) :
    (snapshot worldState).NullFree := by
  suffices h : ∀ sections : ValueMap ν, (Value.object sections.fields).NullFree →
      (Value.object (worldState.foldl ValueMap.addSection sections).fields).NullFree from
    h .empty (.object nofun nofun)
  induction worldState with
  | nil => exact fun sections h => h
  | cons s rest ih => exact fun sections h => ih _ (nullFree_addSection h s)

/-! ### Storing and replaying -/

/-- **What a rollout stores of the world**: a snapshot in full, or a patch. -/
structure WorldStateItem (ν : Type) where
  full : Bool
  state : ValueMap ν

/-- What is stored of a snapshot after the one before it, if anything. -/
def rolloutItem [DecidableEq ν] (baseline : Option (WorldStateSnapshot ν))
    (current : WorldStateSnapshot ν) : Option (WorldStateItem ν) :=
  match baseline with
  | none => some ⟨true, current.intoObject⟩
  | some previous => (current.mergePatchFrom previous).map fun patch => ⟨false, patch⟩

/-- **Replay one item**: a patch without a snapshot is ignored. -/
def replayItem (baseline : Option (WorldStateSnapshot ν)) (item : WorldStateItem ν) :
    Option (WorldStateSnapshot ν) :=
  if item.full then some ⟨item.state⟩
  else baseline.map fun snapshot => snapshot.applyMergePatch item.state

/-- What is stored of snapshots that follow each other. -/
def persisted [DecidableEq ν] (baseline : Option (WorldStateSnapshot ν)) :
    List (WorldStateSnapshot ν) → List (WorldStateItem ν)
  | [] => []
  | current :: rest => (rolloutItem baseline current).toList ++ persisted (some current) rest

section Replay

variable [DecidableEq ν] {previous current : WorldStateSnapshot ν}
  (baseline : Option (WorldStateSnapshot ν))

theorem WorldStateSnapshot.mergePatchFrom_eq_none :
    current.mergePatchFrom previous = none ↔ current = previous := by
  have hpatch := Value.patch_eq_nil previous.sections.ordered current.sections.ordered
  rw [mergePatchFrom]
  constructor
  · intro h
    split at h
    · next hempty =>
      obtain ⟨sections⟩ := current
      obtain ⟨sections'⟩ := previous
      exact congrArg _ (ValueMap.ext (hpatch.mp hempty))
    · cases h
  · rintro rfl
    rw [if_pos (hpatch.mpr rfl)]

theorem WorldStateSnapshot.applyMergePatch_mergePatchFrom (hfree : current.NullFree)
    {patch : ValueMap ν} (h : current.mergePatchFrom previous = some patch) :
    previous.applyMergePatch patch = current := by
  rw [mergePatchFrom] at h
  split at h
  · cases h
  obtain rfl := Option.some.inj h
  have hordered := current.sections.ordered
  cases hfree with
  | object hpresent heach =>
    obtain ⟨sections⟩ := current
    refine congrArg WorldStateSnapshot.mk (ValueMap.ext ?_)
    exact Value.applyFields_patch previous.sections.ordered hordered (.object hpresent heach)
      fun _ hmem => (heach _ hmem).applyMergePatchValue_create (hordered.of_mem_fields hmem)

theorem replay_rolloutItem (hfree : current.NullFree) :
    (rolloutItem baseline current).toList.foldl replayItem baseline = some current := by
  cases baseline with
  | none => rfl
  | some previous =>
    cases hpatch : current.mergePatchFrom previous with
    | none =>
      rw [rolloutItem, hpatch, WorldStateSnapshot.mergePatchFrom_eq_none.mp hpatch]
      rfl
    | some patch =>
      rw [rolloutItem, hpatch]
      exact congrArg some (WorldStateSnapshot.applyMergePatch_mergePatchFrom hfree hpatch)

theorem replay_persisted {snapshots : List (WorldStateSnapshot ν)}
    (hfree : ∀ s ∈ snapshots, s.NullFree) :
    (persisted baseline snapshots).foldl replayItem baseline = snapshots.getLast?.or baseline := by
  induction snapshots generalizing baseline with
  | nil => rfl
  | cons current rest ih =>
    rw [persisted, List.foldl_append, replay_rolloutItem baseline (hfree _ List.mem_cons_self),
      ih _ fun s hmem => hfree s (List.mem_cons_of_mem _ hmem), List.getLast?_cons]
    cases rest.getLast? with
    | none => rfl
    | some last => rfl

/-- **World-state patches replay.** There is no patch between two snapshots exactly if they are
equal, and otherwise the patch leads from the one to the other; and what is stored of any
snapshots that follow each other, the first in full and the others as patches, is replayed to the
last of them. -/
theorem patches_replay (previous current : WorldStateSnapshot ν) (hprevious : previous.NullFree)
    (hcurrent : current.NullFree) (others : List (WorldStateSnapshot ν))
    (hothers : ∀ s ∈ others, s.NullFree) :
    (current.mergePatchFrom previous = none ↔ current = previous) ∧
    (∀ patch, current.mergePatchFrom previous = some patch →
      previous.applyMergePatch patch = current) ∧
    (persisted none (previous :: others)).foldl replayItem none =
      some ((previous :: others).getLast (List.cons_ne_nil _ _)) := by
  refine ⟨WorldStateSnapshot.mergePatchFrom_eq_none,
    fun patch => WorldStateSnapshot.applyMergePatch_mergePatchFrom hcurrent, ?_⟩
  have hfree : ∀ s ∈ previous :: others, s.NullFree := by
    intro s hmem
    rcases List.mem_cons.mp hmem with rfl | hmem
    · exact hprevious
    · exact hothers s hmem
  rw [replay_persisted none hfree, Option.or_none, List.getLast?_eq_getLast_of_ne_nil]

/-- A section with the directory and the name of the shell of a session, which may be unknown. -/
def environment (cwd : String) (shell : Option String) : WorldStateSection ν where
  id := "environments"
  value := some (.object [("cwd", .string cwd), ("shell", shell.elim .null .string)])
  ordered := by
    rintro _ ⟨⟩
    refine .object (List.pairwise_pair.mpr (by decide : "cwd" < "shell")) ?_
    intro field hmem
    rcases List.mem_pair.mp hmem with rfl | rfl
    · exact .string cwd
    · cases shell with
      | none => exact .null
      | some shell => exact .string shell

theorem patches_replay_to_another_directory :
    let first : WorldStateSnapshot ℕ := snapshot [environment "/project" (some "bash")]
    let second : WorldStateSnapshot ℕ := snapshot [environment "/project/src" none]
    second.mergePatchFrom first ≠ none ∧
    (∀ patch, second.mergePatchFrom first = some patch → first.applyMergePatch patch = second) ∧
    (persisted none [first, second, first]).foldl replayItem none = some first := by
  intro first second
  have hfree : ∀ s ∈ [second, first], s.NullFree := by
    intro s hmem
    rcases List.mem_pair.mp hmem with rfl | rfl
    · exact nullFree_snapshot _
    · exact nullFree_snapshot _
  obtain ⟨-, hpatch, hreplay⟩ := patches_replay first second (nullFree_snapshot _)
    (nullFree_snapshot _) [second, first] hfree
  exact ⟨by decide, hpatch, hreplay⟩

end Replay

end Rivloom.Session

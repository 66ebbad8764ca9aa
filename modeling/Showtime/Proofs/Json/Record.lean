/-
# Records and names in JSON

A record is the object of its parts, in any order and among further fields, or the
array of its parts in their order.  A name that stands for an alternative without a value
is a string, or an object with that name and `null`.  `Json.Record` and `Json.Naming` say
which values these are.

Reading looks for the parts of a record by their names or by their places.  It finds
them in every record (`Json.Record.finds`).  Where the fields of an object have different
names, it finds them in nothing else (`Json.Finds.record`).
-/

import Mathlib.Data.List.Forall2
import Mathlib.Data.List.Perm.Lattice
import Showtime.Program.Stored

namespace Showtime

/-! ### Lists of readings -/

/-- All readings succeed exactly when each does. -/
theorem mapM_eq_some_iff {α β : Type} {f : α → Option β} {xs : List α} {ys : List β} :
    xs.mapM f = some ys ↔ List.Forall₂ (fun x y => f x = some y) xs ys := by
  induction xs generalizing ys with
  | nil => cases ys <;> simp
  | cons x xs ih =>
    simp only [List.mapM_cons, Option.bind_eq_bind, Option.bind_eq_some_iff, Option.pure_def,
      Option.some.injEq, List.forall₂_cons_left_iff, ih]
    constructor
    · rintro ⟨y, hy, rest, hrest, rfl⟩
      exact ⟨y, rest, hy, hrest, rfl⟩
    · rintro ⟨y, rest, hy, hrest, rfl⟩
      exact ⟨y, hy, rest, hrest, rfl⟩

/-- Readings that accept only what `write` writes. -/
theorem mapM_eq_some_iff_map {α β : Type} {f : α → Option β} {write : β → α}
    (h : ∀ x y, f x = some y ↔ x = write y) {xs : List α} {ys : List β} :
    xs.mapM f = some ys ↔ xs = ys.map write := by
  simp only [mapM_eq_some_iff, h]
  rw [← List.forall₂_map_right_iff, List.forall₂_eq_eq_eq]

namespace Json

/-! ### Single values -/

/-- Only a string is read as a string. -/
theorem str?_eq_some_iff {json : Json} {s : String} : json.str? = some s ↔ json = .str s := by
  cases json <;> simp [str?]

/-- Only an array is read as an array. -/
theorem arr?_eq_some_iff {json : Json} {items : List Json} :
    json.arr? = some items ↔ json = .arr items := by
  cases json <;> simp [arr?]

/-- An integer is read as a machine integer exactly if it is in the range. -/
theorem int64?_eq_some_iff {json : Json} {n : Int64} :
    json.int64? = some n ↔ json = .int n.toInt := by
  constructor
  · intro h
    obtain ⟨m, hm, hn⟩ := Option.bind_eq_some_iff.1 h
    rw [Integer.toInt_of_ofInt? hn]
    cases json <;> simp_all [int?]
  · rintro rfl
    exact Integer.ofInt?_toInt n

/-- Only an object with a single key is read as a variant. -/
theorem variant?_eq_some_iff {json value : Json} {name : String} :
    json.variant? = some (name, value) ↔ json = .tagged name value := by
  unfold variant? tagged
  split
  · simp
  · next hother =>
    simp only [reduceCtorEq, false_iff]
    exact hother (name, value)

/-! ### Names -/

/-- How the name of an alternative can be written: as a string, or as an object. -/
inductive Naming (name : String) : Json → Prop
  | bare : Naming name (.str name)
  | object : Naming name (.tagged name .null)

/-- A bare name is a string, or the key of an object that has nothing else. -/
theorem bareName?_eq_some_iff {json : Json} {name : String} :
    json.bareName? = some name ↔ Naming name json := by
  constructor
  · intro h
    unfold bareName? at h
    split at h
    · obtain rfl := Option.some.inj h
      exact .bare
    · obtain rfl := Option.some.inj h
      exact .object
    · cases h
  · rintro (_ | _) <;> rfl

/-- A table of names reads each of them, however it is written. -/
theorem bareName?_bind_find?_iff {α : Type} {all : List α} {nameOf : α → String}
    (hfound : ∀ a, (all.find? fun b => nameOf b == nameOf a) = some a) {json : Json} {a : α} :
    (json.bareName?.bind fun name => all.find? fun b => nameOf b == name) = some a ↔
      Naming (nameOf a) json := by
  rw [← bareName?_eq_some_iff, Option.bind_eq_some_iff]
  constructor
  · rintro ⟨name, hname, ha⟩
    have heq : nameOf a = name := by simpa using List.find?_some ha
    rw [heq, hname]
  · intro h
    exact ⟨nameOf a, h, hfound a⟩

/-! ### Records -/

/-- How a record with these parts can be written: as the array of the parts, or as an
object that has them as fields, in any order and among fields of other names. -/
inductive Record (parts : List (String × Json)) : Json → Prop
  | positional : Record parts (.arr (parts.map Prod.snd))
  | named {fields further : List (String × Json)} (horder : fields.Perm (parts ++ further))
    (hfurther : ∀ field ∈ further, field.1 ∉ parts.map Prod.fst) : Record parts (.obj fields)

/-- The parts by name and in order are one of the forms of a record. -/
theorem Record.ordered (parts : List (String × Json)) : Record parts (.obj parts) :=
  .named (.of_eq (List.append_nil parts).symm) nofun

/-- The fields of each object in a value have different names. -/
inductive Proper : Json → Prop
  | null : Proper .null
  | bool (b : Bool) : Proper (.bool b)
  | int (n : Int) : Proper (.int n)
  | real (literal : String) : Proper (.real literal)
  | str (s : String) : Proper (.str s)
  | arr {items : List Json} (hitems : ∀ item ∈ items, Proper item) : Proper (.arr items)
  | obj {fields : List (String × Json)} (hnames : (fields.map Prod.fst).Nodup)
    (hfields : ∀ field ∈ fields, Proper field.2) : Proper (.obj fields)

/-- A value that is found stands under its name. -/
theorem mem_of_field? {fields : List (String × Json)} {name : String} {value : Json}
    (h : (obj fields).field? name = some value) : (name, value) ∈ fields := by
  obtain ⟨field, hfield, rfl⟩ := Option.map_eq_some_iff.1 h
  have hname : field.1 = name := by simpa using List.find?_some hfield
  rw [← hname]
  exact List.mem_of_find?_eq_some hfield

/-- A value that stands under its name, and no other does, is found. -/
theorem field?_of_mem {fields : List (String × Json)} {name : String} {value : Json}
    (h : (name, value) ∈ fields) (hunique : ∀ other, (name, other) ∈ fields → other = value) :
    (obj fields).field? name = some value := by
  have hsome : ((obj fields).field? name).isSome := by
    simp only [field?, Option.isSome_map, List.find?_isSome]
    exact ⟨_, h, beq_self_eq_true name⟩
  obtain ⟨other, hother⟩ := Option.isSome_iff_exists.1 hsome
  rw [hother, hunique other (mem_of_field? hother)]

/-- Reading finds these parts in a value. -/
def Finds (json : Json) (parts : List (String × Json)) : Prop :=
  json.parts? (parts.map Prod.fst) = some (parts.map Prod.snd)

/-- In an object the parts are found by their names. -/
theorem finds_obj_iff {fields parts : List (String × Json)} :
    (obj fields).Finds parts ↔ ∀ part ∈ parts, (obj fields).field? part.1 = some part.2 := by
  rw [Finds, parts?, mapM_eq_some_iff, List.forall₂_map_left_iff, List.forall₂_map_right_iff,
    List.forall₂_same]

/-- In an array the parts are all there is, in order. -/
theorem finds_arr_iff {items : List Json} {parts : List (String × Json)} :
    (arr items).Finds parts ↔ items = parts.map Prod.snd := by
  simp only [Finds, parts?, Option.ite_none_right_eq_some, Option.some.injEq, List.length_map]
  constructor
  · exact And.right
  · rintro rfl
    exact ⟨List.length_map _, rfl⟩

/-- **The parts of a record are found,** however it is written. -/
theorem Record.finds {parts : List (String × Json)} {json : Json} (h : Record parts json)
    (hnames : (parts.map Prod.fst).Nodup) : json.Finds parts := by
  cases h with
  | positional => exact finds_arr_iff.2 rfl
  | @named fields further horder hfurther =>
    rw [finds_obj_iff]
    rintro ⟨name, value⟩ hpart
    refine field?_of_mem (horder.mem_iff.2 (List.mem_append_left _ hpart)) fun other hother => ?_
    rcases List.mem_append.1 (horder.mem_iff.1 hother) with hother | hother
    · have heq := List.inj_on_of_nodup_map hnames hother hpart rfl
      exact (Prod.mk.inj heq).2
    · exact absurd (List.mem_map_of_mem hpart) (hfurther (name, other) hother)

/-- Where parts are found, there is a record. -/
theorem Finds.record {parts : List (String × Json)} {json : Json} (h : json.Finds parts)
    (hnames : (parts.map Prod.fst).Nodup) (hproper : json.Proper) : Record parts json := by
  cases hproper with
  | @arr items =>
    obtain rfl := finds_arr_iff.1 h
    exact .positional
  | @obj fields hdistinct =>
    rw [finds_obj_iff] at h
    -- the fields that have the name of a part are the parts
    have hparts : (fields.filter fun field => field.1 ∈ parts.map Prod.fst).Perm parts := by
      rw [List.perm_ext_iff_of_nodup (hdistinct.of_map.filter _) hnames.of_map]
      rintro ⟨name, value⟩
      rw [List.mem_filter, decide_eq_true_iff]
      constructor
      · rintro ⟨hfield, hname⟩
        obtain ⟨part, hpart, rfl⟩ := List.mem_map.1 hname
        have heq := List.inj_on_of_nodup_map hdistinct hfield (mem_of_field? (h part hpart)) rfl
        rw [heq]
        exact hpart
      · intro hpart
        exact ⟨mem_of_field? (h _ hpart), List.mem_map_of_mem hpart⟩
    refine .named ((List.filter_append_perm _ fields).symm.trans (hparts.append_right _)) ?_
    intro field hfield
    simpa using (List.mem_filter.1 hfield).2
  | _ => cases h

/-- The parts of a document without repeated keys are such documents. -/
theorem Finds.proper {parts : List (String × Json)} {json : Json} (h : json.Finds parts)
    (hproper : json.Proper) {name : String} {value : Json} (hpart : (name, value) ∈ parts) :
    value.Proper := by
  cases hproper with
  | arr hitems =>
    obtain rfl := finds_arr_iff.1 h
    exact hitems _ (List.mem_map_of_mem hpart)
  | obj _ hfields => exact hfields _ (mem_of_field? (finds_obj_iff.1 h _ hpart))
  | _ => cases h

/-- The value of a variant has no repeated keys if the whole has none. -/
theorem Proper.of_tagged {name : String} {value : Json} (h : (tagged name value).Proper) :
    value.Proper := by
  cases h with
  | obj _ hfields => exact hfields _ List.mem_cons_self

/-- The items of an array have no repeated keys if the whole has none. -/
theorem Proper.of_mem {items : List Json} (h : (Json.arr items).Proper) :
    ∀ item ∈ items, item.Proper := by
  cases h with
  | arr hitems => exact hitems

end Json

end Showtime

import Mathlib.Data.List.Infix
import QueryFilter.Proofs.Walk

/-!
# Places in a catalogue

Attribute names lead from a root type to a place in a catalogue: through links to other entities
and through composites, which stay in the row. The row that a place lies in is that of the last
link on the way.

* `Catalog.step?`: where one name leads from a type;
* `Catalog.reach?`: where names lead from a root type;
* `Catalog.lastLink`: the part of a place up to the last link on the way;
* `Catalog.lastLink_concat`: how it changes from one name to the next.
-/

namespace QueryFilter

variable {τ : Type}

namespace Catalog

/-- Where a name leads from a type: its attribute, which is a link or a composite, and the type
that comes next. -/
def step? (C : Catalog τ) (type : τ) (name : String) : Option (Attribute × τ) :=
  match C.attribute? type name with
  | none => none
  | some a =>
    match a.kind with
    | .basic _ => none
    | .embedded _ => (C.embedded? type a).map fun next => (a, next)
    | .association _ _ => (C.target? type a).map fun next => (a, next)

/-- The type that names lead to from a root type. -/
def reach? (C : Catalog τ) (root : τ) (path : List String) : Option τ :=
  path.foldlM (fun type name => (C.step? type name).map (·.2)) root

/-- Whether the last of some names is that of a link. -/
def isLink (C : Catalog τ) (root : τ) (path : List String) : Bool :=
  match C.reach? root path.dropLast, path.getLast? with
  | some type, some name => (C.step? type name).any (·.1.isAssociation)
  | _, _ => false

/-- The longest part of some names, from the first on, that ends in a link; no name when there is
no link among them. -/
def lastLink (C : Catalog τ) (root : τ) (path : List String) : List String :=
  (path.inits.reverse.find? (C.isLink root)).getD []

/-- Attributes are found by their own names. -/
def Exact (C : Catalog τ) : Prop :=
  ∀ type name a, C.attribute? type name = some a → a.name = name

variable {C : Catalog τ}

/-- A walk goes on exactly where the name leads on. -/
theorem step?_eq_toOption_follow (C : Catalog τ) (field : String) (type : τ) (name : String) :
    C.step? type name = (C.follow field type name).toOption := by
  unfold step? follow
  cases C.attribute? type name with
  | none => rfl
  | some a =>
    dsimp only
    cases a.kind with
    | basic t => rfl
    | embedded schema => cases C.embedded? type a <;> rfl
    | association target many => cases C.target? type a <;> rfl

theorem step?_of_follow {field : String} {type next : τ} {name : String} {a : Attribute}
    (h : C.follow field type name = .ok (a, next)) : C.step? type name = some (a, next) := by
  rw [C.step?_eq_toOption_follow field, h]
  rfl

theorem step?_of_follow_error {field : String} {type : τ} {name : String} {e : CompileError}
    (h : C.follow field type name = .error e) : C.step? type name = none := by
  rw [C.step?_eq_toOption_follow field, h]
  rfl

theorem name_of_step? (hC : C.Exact) {type next : τ} {name : String} {a : Attribute}
    (h : C.step? type name = some (a, next)) : a.name = name := by
  cases hf : C.follow name type name with
  | error e =>
    rw [step?_of_follow_error hf] at h
    cases h
  | ok s =>
    rw [step?_of_follow hf] at h
    cases h
    exact hC type name _ (follow_eq_ok_iff.1 hf).1

/-! ### One more name -/

theorem reach?_concat {root type : τ} {path : List String} (h : C.reach? root path = some type)
    (name : String) : C.reach? root (path ++ [name]) = (C.step? type name).map (·.2) := by
  rw [reach?, List.foldlM_append, ← reach?, h]
  simp

theorem isLink_concat {root type : τ} {path : List String} (h : C.reach? root path = some type)
    (name : String) :
    C.isLink root (path ++ [name]) = (C.step? type name).any (·.1.isAssociation) := by
  rw [isLink, List.dropLast_concat, List.getLast?_concat, h]

/-- A name that is added is the last link when it is that of a link. -/
theorem lastLink_concat (C : Catalog τ) (root : τ) (path : List String) (name : String) :
    C.lastLink root (path ++ [name]) =
      if C.isLink root (path ++ [name]) then path ++ [name] else C.lastLink root path := by
  have hinits : (path ++ [name]).inits = path.inits ++ [path ++ [name]] := by
    rw [List.inits_append]
    rfl
  rw [lastLink, hinits, List.reverse_append, List.reverse_singleton, List.singleton_append,
    List.find?_cons]
  cases C.isLink root (path ++ [name]) <;> rfl

theorem lastLink_prefix (C : Catalog τ) (root : τ) (path : List String) :
    C.lastLink root path <+: path := by
  unfold lastLink
  cases h : path.inits.reverse.find? (C.isLink root) with
  | none => exact List.nil_prefix
  | some p =>
    have hp := List.mem_of_find?_eq_some h
    rw [List.mem_reverse, List.mem_inits] at hp
    exact hp

/-- The names before the last one up to the last link among them, and all the names behind it. -/
theorem lastLink_append_drop (C : Catalog τ) (root : τ) (path : List String) :
    C.lastLink root path.dropLast ++ path.drop (C.lastLink root path.dropLast).length = path :=
  List.prefix_iff_eq_append.1 ((C.lastLink_prefix root _).trans (List.dropLast_prefix _))

end Catalog

/-! ### Registries -/

theorem Registry.exact_catalog (r : Registry) : r.catalog.Exact := by
  intro e name a h
  exact Entity.name_of_attribute? h

/-- In a registry a name leads on when it is that of a link or of a composite whose type is
registered. -/
theorem Registry.step?_eq_some_iff {r : Registry} {type next : Entity} {name : String}
    {a : Attribute} :
    r.catalog.step? type name = some (a, next) ↔ type.attribute? name = some a ∧
      ((∃ target many, a.kind = .association target many ∧ r.lookup? target = some next) ∨
        ∃ schema, a.kind = .embedded schema ∧ r.lookup? schema = some next) := by
  simp only [Catalog.step?, Registry.catalog, Catalog.ofLookup]
  cases type.attribute? name with
  | none => simp
  | some b =>
    obtain ⟨bname, kind⟩ := b
    constructor
    · intro h
      cases kind with
      | basic t => cases h
      | embedded schema =>
        obtain ⟨n, hn, heq⟩ := Option.map_eq_some_iff.1 h
        cases heq
        exact ⟨rfl, .inr ⟨schema, rfl, hn⟩⟩
      | association target many =>
        obtain ⟨n, hn, heq⟩ := Option.map_eq_some_iff.1 h
        cases heq
        exact ⟨rfl, .inl ⟨target, many, rfl, hn⟩⟩
    · rintro ⟨heq, ⟨target, many, hk, hn⟩ | ⟨schema, hk, hn⟩⟩
      · cases heq
        cases hk
        exact Option.map_eq_some_iff.2 ⟨next, hn, rfl⟩
      · cases heq
        cases hk
        exact Option.map_eq_some_iff.2 ⟨next, hn, rfl⟩

theorem Registry.mem_of_step? {r : Registry} {type next : Entity} {name : String} {a : Attribute}
    (h : r.catalog.step? type name = some (a, next)) : next ∈ r.types := by
  obtain ⟨-, ⟨target, many, -, hn⟩ | ⟨schema, -, hn⟩⟩ := step?_eq_some_iff.1 h
  · exact mem_of_lookup? hn
  · exact mem_of_lookup? hn

end QueryFilter

import Mathlib.Data.List.Perm.Basic
import QueryFilter.Proofs.Compositional
import QueryFilter.Proofs.Grammar

/-!
# Documents with their keys in another order

When the keys inside a document are put in another order, the document is decoded to a tree whose
conjunctions have their children in another order. The order of the alternatives of a disjunction
is that of an array, so it stays.

* `Json.Reordered`: two values that differ in the order of keys only;
* `Expression.Reordered` and `Predicate.Reordered`: two trees that differ in the order of the
  children of conjunctions only;
* `Document.expressions_reordered`: decoding turns the one into the other;
* `Expression.Reordered.perm_leaves` and `Expression.Reordered.depth_eq`: what such trees share;
* `Expression.Reordered.toPredicate`: they have predicates that differ in the same way.
-/

namespace QueryFilter

/-! ### Values -/

mutual

/-- Two values that differ only in the order of the keys of objects, at any depth. -/
inductive Json.Reordered : Json → Json → Prop
  | scalar (v : Json.Scalar) : Json.Reordered (.scalar v) (.scalar v)
  | array {vs ws : List Json} : List.Forall₂ Json.Reordered vs ws →
    Json.Reordered (.array vs) (.array ws)
  | object {ms ls ns : List (String × Json)} : List.Forall₂ Json.ReorderedMember ms ls →
    ls.Perm ns → Json.Reordered (.object ms) (.object ns)

/-- Two members with the same key, whose values differ in the order of keys only. -/
inductive Json.ReorderedMember : String × Json → String × Json → Prop
  | value (key : String) {v w : Json} : Json.Reordered v w →
    Json.ReorderedMember (key, v) (key, w)

end

namespace Json

mutual

theorem Reordered.symm : {v w : Json} → v.Reordered w → w.Reordered v
  | _, _, .scalar v => .scalar v
  | _, _, .array hvs => .array (symmEach hvs)
  | _, _, .object hms hperm => by
    obtain ⟨ks, hks, hperm'⟩ := List.perm_comp_forall₂ hperm.symm (symmMembers hms)
    exact .object hks hperm'

theorem symmEach : {vs ws : List Json} → List.Forall₂ Reordered vs ws →
    List.Forall₂ Reordered ws vs
  | _, _, .nil => .nil
  | _, _, .cons hv hvs => .cons hv.symm (symmEach hvs)

theorem symmMembers : {ms ls : List (String × Json)} → List.Forall₂ ReorderedMember ms ls →
    List.Forall₂ ReorderedMember ls ms
  | _, _, .nil => .nil
  | _, _, .cons (.value key hv) hms => .cons (.value key hv.symm) (symmMembers hms)

end

/-- Values without an object stay as they are. -/
theorem Reordered.eq_of_scalars {ss : List Scalar} {ws : List Json}
    (h : List.Forall₂ Reordered (ss.map .scalar) ws) : ws = ss.map .scalar := by
  induction ss generalizing ws with
  | nil => exact List.forall₂_nil_left_iff.1 h
  | cons s ss ih =>
    obtain ⟨w, ws, hw, hws, rfl⟩ := List.forall₂_cons_left_iff.1 h
    cases hw
    rw [ih hws, List.map_cons]

end Json

/-! ### Expressions -/

/-- Two trees that differ only in the order of the children of conjunctions, at any depth. -/
inductive Expression.Reordered : Expression → Expression → Prop
  | leaf (field : String) (c : Condition) :
    Expression.Reordered (.leaf field c) (.leaf field c)
  | and {es fs ds : List Expression} : List.Forall₂ Expression.Reordered es fs → fs.Perm ds →
    Expression.Reordered (.compound .and es) (.compound .and ds)
  | or {es ds : List Expression} : List.Forall₂ Expression.Reordered es ds →
    Expression.Reordered (.compound .or es) (.compound .or ds)

namespace Expression

/-- Induction over two trees of which the one is the other reordered. -/
@[elab_as_elim]
theorem Reordered.induction {P : Expression → Expression → Prop} {e d : Expression}
    (h : e.Reordered d) (leaf : ∀ f c, P (.leaf f c) (.leaf f c))
    (and : ∀ es fs ds, List.Forall₂ P es fs → fs.Perm ds →
      P (.compound .and es) (.compound .and ds))
    (or : ∀ es ds, List.Forall₂ P es ds → P (.compound .or es) (.compound .or ds)) : P e d :=
  @Reordered.rec (fun e d _ => P e d) (fun es ds _ => List.Forall₂ P es ds) leaf
    (fun _ hperm hes => and _ _ _ hes hperm) (fun _ hes => or _ _ hes) .nil
    (fun _ _ hed hes => .cons hed hes) e d h

/-- The children of a connective one by one. -/
theorem Reordered.compound (op : Connective) {es ds : List Expression}
    (h : List.Forall₂ Reordered es ds) : (compound op es).Reordered (compound op ds) := by
  cases op with
  | and => exact .and h (.refl ds)
  | or => exact .or h

/-- Trees that differ in the order of conjunctions have the same leaves. -/
theorem Reordered.perm_leaves {e d : Expression} (h : e.Reordered d) : e.leaves.Perm d.leaves := by
  have hchildren {es ds : List Expression}
      (h : List.Forall₂ (fun e d : Expression => e.leaves.Perm d.leaves) es ds) :
      (leavesOfAll es).Perm (leavesOfAll ds) := by
    induction h with
    | nil => exact .refl _
    | cons hed _ ih => exact hed.append ih
  refine h.induction (fun f c => .refl _) ?_ fun es ds hes => hchildren hes
  intro es fs ds hes hperm
  have hflat : (leavesOfAll fs).Perm (leavesOfAll ds) := by
    rw [leavesOfAll_eq_flatMap, leavesOfAll_eq_flatMap]
    exact hperm.flatMap_right leaves
  exact (hchildren hes).trans hflat

/-- Trees that differ in the order of conjunctions are as deep as each other. -/
theorem Reordered.depth_eq {e d : Expression} (h : e.Reordered d) : e.depth = d.depth := by
  refine h.induction (fun f c => rfl) ?_ ?_
  · intro es fs ds hes hperm
    rw [depth, depth, depthOfAll_congr hes, depthOfAll_perm hperm]
  · intro es ds hes
    rw [depth, depth, depthOfAll_congr hes]

end Expression

/-! ### Decoding -/

/-- A leaf has one key at most, so it stays as it is. -/
theorem Spells.eq_of_reordered {v w : Json} {c : Condition} (hv : Spells v c)
    (h : v.Reordered w) : w = v := by
  cases hv with
  | scalar v =>
    cases h
    rfl
  | array vs =>
    cases h with
    | array hvs => rw [Json.Reordered.eq_of_scalars hvs]
  | operator c =>
    cases h with
    | object hms hperm =>
      obtain ⟨l, ls, hl, hls, rfl⟩ := List.forall₂_cons_left_iff.1 hms
      cases List.forall₂_nil_left_iff.1 hls
      cases hl with
      | value key hw =>
        rw [List.perm_singleton.1 hperm.symm]
        cases c with
        | single op v =>
          cases hw
          rfl
        | list op vs =>
          cases hw with
          | array hvs => rw [Json.Reordered.eq_of_scalars hvs, Condition.operand]

namespace Document

open Expression

/-- Members in another order stand for expressions in another order. -/
theorem DenotesAll.perm {ms ns : List (String × Json)} {es : List Expression}
    (h : DenotesAll ms es) (hperm : ms.Perm ns) : ∃ ds, DenotesAll ns ds ∧ es.Perm ds := by
  rw [denotesAll_iff_forall₂] at h
  obtain ⟨ds, hds, hperm'⟩ := List.perm_comp_forall₂ hperm.symm h
  exact ⟨ds, denotesAll_iff_forall₂.2 hds, hperm'.symm⟩

theorem joinMembers_reordered {es fs ds : List Expression}
    (h : List.Forall₂ Expression.Reordered es fs) (hperm : fs.Perm ds) :
    (joinMembers es).Reordered (joinMembers ds) := by
  match h with
  | .nil =>
    rw [List.nil_perm.1 hperm]
    exact .and .nil (.refl [])
  | .cons hed .nil =>
    rw [← List.singleton_perm.1 hperm]
    exact hed
  | .cons hed (.cons hed' h) =>
    match ds, hperm with
    | [], hperm => exact absurd hperm.length_eq (by simp)
    | [_], hperm => exact absurd hperm.length_eq (by simp)
    | d :: d' :: ds, hperm => exact .and (.cons hed (.cons hed' h)) hperm

mutual

/-- A member whose value has its keys in another order. -/
theorem denotes_reordered {key : String} : {v w : Json} → {e : Expression} → v.Reordered w →
    Denotes key v e → ∃ d, Denotes key w d ∧ e.Reordered d
  | _, _, _, .array hvs, .connective op hkey hes => by
    obtain ⟨ds, hds, hreordered⟩ := denotesEach_reordered hvs hes
    exact ⟨.compound op ds, .connective op hkey hds, .compound op hreordered⟩
  | _, _, _, hvw, .leaf hkey hv hc => by
    obtain rfl := hv.eq_of_reordered hvw
    exact ⟨_, .leaf hkey hv hc, .leaf _ _⟩

theorem denotesEach_reordered : {vs ws : List Json} → {es : List Expression} →
    List.Forall₂ Json.Reordered vs ws → DenotesEach vs es →
    ∃ ds, DenotesEach ws ds ∧ List.Forall₂ Expression.Reordered es ds
  | _, _, _, .nil, .nil => ⟨[], .nil, .nil⟩
  | _, _, _, .cons (.object hms hperm) hvs, hes => by
    obtain ⟨fs, rest, hfs, hrest, rfl⟩ := denotesEach_cons_iff.1 hes
    obtain ⟨gs, hgs, hfgs⟩ := denotesAll_reordered hms hfs
    obtain ⟨ds, hds, hgds⟩ := hgs.perm hperm
    obtain ⟨rest', hrest', hreordered⟩ := denotesEach_reordered hvs hrest
    exact ⟨joinMembers ds :: rest', denotesEach_cons_iff.2 ⟨ds, rest', hds, hrest', rfl⟩,
      .cons (joinMembers_reordered hfgs hgds) hreordered⟩

theorem denotesAll_reordered : {ms ls : List (String × Json)} → {es : List Expression} →
    List.Forall₂ Json.ReorderedMember ms ls → DenotesAll ms es →
    ∃ ds, DenotesAll ls ds ∧ List.Forall₂ Expression.Reordered es ds
  | _, _, _, .nil, .nil => ⟨[], .nil, .nil⟩
  | _, _, _, .cons (.value key hv) hms, .cons he hes => by
    obtain ⟨d, hd, hed⟩ := denotes_reordered hv he
    obtain ⟨ds, hds, hreordered⟩ := denotesAll_reordered hms hes
    exact ⟨d :: ds, .cons hd hds, .cons hed hreordered⟩

end

/-- A document with its keys in another order is decoded to expressions in another order. -/
theorem expressions_reordered {d d' : Document} (h : d.toJson.Reordered d'.toJson)
    {es : List Expression} (hes : d.expressions = .ok es) :
    ∃ ds, d'.expressions = .ok ds ∧ (allOf es).Reordered (allOf ds) := by
  rw [expressions, decodeMembers_eq_ok_iff] at hes
  cases h with
  | object hms hperm =>
    obtain ⟨fs, hfs, hreordered⟩ := denotesAll_reordered hms hes
    obtain ⟨ds, hds, hperm'⟩ := hfs.perm hperm
    exact ⟨ds, (decodeMembers_eq_ok_iff _ _).2 hds, .and hreordered hperm'⟩

end Document

/-! ### Predicates -/

/-- Two predicates that differ only in the order of the children of conjunctions, at any depth. -/
inductive Predicate.Reordered {σ : Type} : Predicate σ → Predicate σ → Prop
  | always : Predicate.Reordered .always .always
  | test (t : Test σ) : Predicate.Reordered (.test t) (.test t)
  | not {p q : Predicate σ} : Predicate.Reordered p q → Predicate.Reordered (.not p) (.not q)
  | and {ps qs rs : List (Predicate σ)} : List.Forall₂ Predicate.Reordered ps qs → qs.Perm rs →
    Predicate.Reordered (.compound .and ps) (.compound .and rs)
  | or {ps qs : List (Predicate σ)} : List.Forall₂ Predicate.Reordered ps qs →
    Predicate.Reordered (.compound .or ps) (.compound .or qs)

section

variable {σ : Type}

theorem Predicate.Reordered.refl (p : Predicate σ) : p.Reordered p := by
  induction p with
  | always => exact .always
  | test t => exact .test t
  | not p ih => exact .not ih
  | compound op ps ih =>
    have hps : List.Forall₂ Predicate.Reordered ps ps := List.forall₂_same.2 ih
    cases op with
    | and => exact .and hps (.refl ps)
    | or => exact .or hps

theorem Predicate.Reordered.conjunction {ps qs rs : List (Predicate σ)}
    (h : List.Forall₂ Predicate.Reordered ps qs) (hperm : qs.Perm rs) :
    (Predicate.conjunction ps).Reordered (Predicate.conjunction rs) := by
  match h with
  | .nil =>
    rw [List.nil_perm.1 hperm]
    exact .always
  | .cons hpq .nil =>
    rw [← List.singleton_perm.1 hperm]
    exact hpq
  | .cons hpq (.cons hpq' h) =>
    match rs, hperm with
    | [], hperm => exact absurd hperm.length_eq (by simp)
    | [_], hperm => exact absurd hperm.length_eq (by simp)
    | r :: r' :: rs, hperm => exact .and (.cons hpq (.cons hpq' h)) hperm

/-- Predicates are in another order when the trees are that they are made of. -/
theorem Expression.Reordered.toPredicate {e d : Expression} (h : e.Reordered d)
    (g : String × Condition → Predicate σ) : (e.toPredicate g).Reordered (d.toPredicate g) := by
  have hmap {es ds : List Expression}
      (h : List.Forall₂ (fun e d : Expression => (e.toPredicate g).Reordered (d.toPredicate g))
        es ds) :
      List.Forall₂ Predicate.Reordered (es.map (Expression.toPredicate g))
        (ds.map (Expression.toPredicate g)) := by
    rwa [List.forall₂_map_left_iff, List.forall₂_map_right_iff]
  refine h.induction (fun f c => .refl _) ?_ ?_
  · intro es fs ds hes hperm
    simp only [Expression.toPredicate, Expression.toPredicates_eq_map]
    exact .and (hmap hes) (hperm.map _)
  · intro es ds hes
    simp only [Expression.toPredicate, Expression.toPredicates_eq_map]
    exact .or (hmap hes)

/-- The predicate of a filter is the conjunction of its expressions. -/
theorem Expression.Reordered.conjunction {es ds : List Expression}
    (h : (allOf es).Reordered (allOf ds)) (g : String × Condition → Predicate σ) :
    (Predicate.conjunction (es.map (Expression.toPredicate g))).Reordered
      (Predicate.conjunction (ds.map (Expression.toPredicate g))) := by
  cases h with
  | and hes hperm =>
    refine Predicate.Reordered.conjunction ?_ (hperm.map _)
    rw [List.forall₂_map_left_iff, List.forall₂_map_right_iff]
    exact hes.imp fun e d hed => hed.toPredicate g

end

end QueryFilter

import Stencil.Proofs.Lexical

/-!
# Bindings that are kept

How the bindings of a machine change while it runs. New ones come on top of the earlier ones and are
removed again, so an earlier binding keeps its place, counted from the outermost one. It keeps its
value too, unless it is assigned.
-/

namespace Stencil

namespace Bindings

/-- The place of the innermost binding of a variable, counted from the outermost binding. -/
def place? (name : Nat) : List (Nat × Value) → Option Nat
  | [] => none
  | b :: rest => if b.1 = name then some rest.length else place? name rest

/-- Whether bindings are earlier ones below new ones of the given names, where values have changed
only in the places that may be assigned. -/
structure Keeps (assigned : Nat → Nat → Prop) (names : List Nat) (before after : List (Nat × Value)) :
    Prop where
  names : after.map Prod.fst = names ++ before.map Prod.fst
  values : ∀ k b, before.reverse[k]? = some b → ¬assigned k b.1 → after.reverse[k]? = some b

variable {assigned : Nat → Nat → Prop} {names names' : List Nat} {name k : Nat} {v : Value}
  {b : Nat × Value} {rest before between after bindings : List (Nat × Value)}

/-- Counted from the outermost one, a new binding is the last. -/
theorem getElem?_reverse_cons (b : Nat × Value) (rest : List (Nat × Value)) (k : Nat) :
    (b :: rest).reverse[k]? = if k = rest.length then some b else rest.reverse[k]? := by
  rw [List.reverse_cons, List.getElem?_append, List.length_reverse]
  split
  · next hlt => rw [if_neg (Nat.ne_of_lt hlt)]
  · next hge =>
    split
    · next heq => simp [heq]
    · next hne =>
      have hnone : rest.reverse[k]? = none := List.getElem?_eq_none (by simp; omega)
      rw [hnone]
      exact List.getElem?_eq_none (by simp; omega)

/-- In the place of a variable there is a binding of that variable. -/
theorem exists_of_place? (h : place? name bindings = some k) :
    ∃ v, bindings.reverse[k]? = some (name, v) := by
  induction bindings with
  | nil => cases h
  | cons b rest ih =>
    rw [place?] at h
    split at h
    · next hname =>
      cases h
      exact ⟨b.2, by rw [getElem?_reverse_cons, if_pos rfl, ← hname]⟩
    · obtain ⟨v, hv⟩ := ih h
      have hlt : k < rest.length := by simpa using (List.getElem?_eq_some_iff.mp hv).1
      exact ⟨v, by rw [getElem?_reverse_cons, if_neg (Nat.ne_of_lt hlt), hv]⟩

/-- An assignment changes nothing but the binding in the place of the variable. -/
theorem assign?_eq_some (h : assign? name v bindings = some after) :
    ∃ k, place? name bindings = some k ∧ ∀ j ≠ k, after.reverse[j]? = bindings.reverse[j]? := by
  induction bindings generalizing after with
  | nil => cases h
  | cons b rest ih =>
    rw [assign?] at h
    rw [place?]
    split at h
    · next hname =>
      cases h
      refine ⟨rest.length, if_pos hname, fun j hj => ?_⟩
      rw [getElem?_reverse_cons, getElem?_reverse_cons, if_neg hj, if_neg hj]
    · next hname =>
      obtain ⟨rest', hrest, rfl⟩ := Option.map_eq_some_iff.mp h
      obtain ⟨k, hplace, hsame⟩ := ih hrest
      have hlength : rest'.length = rest.length := by
        have hnames := congrArg List.length (Machine.map_fst_assign? hrest)
        simpa only [List.length_map] using hnames
      refine ⟨k, by rw [if_neg hname, hplace], fun j hj => ?_⟩
      rw [getElem?_reverse_cons, getElem?_reverse_cons, hlength, hsame j hj]

namespace Keeps

/-- Bindings that do not change are kept. -/
theorem refl (bindings : List (Nat × Value)) : Keeps assigned [] bindings bindings :=
  ⟨rfl, fun _ _ hb _ => hb⟩

/-- Bindings that are kept twice are kept. -/
theorem trans (h : Keeps assigned names before between) (h' : Keeps assigned names' between after) :
    Keeps assigned (names' ++ names) before after where
  names := by rw [h'.names, h.names, List.append_assoc]
  values k b hb hnot := h'.values k b (h.values k b hb hnot) hnot

/-- A new binding comes on top. -/
theorem bind (h : Keeps assigned names before after) (name : Nat) (v : Value) :
    Keeps assigned (name :: names) before ((name, v) :: after) where
  names := by rw [List.map_cons, h.names, List.cons_append]
  values k b hb hnot := by
    have hkept := h.values k b hb hnot
    have hlt : k < after.length := by simpa using (List.getElem?_eq_some_iff.mp hkept).1
    rw [getElem?_reverse_cons, if_neg (Nat.ne_of_lt hlt), hkept]

/-- New bindings on top keep the others. -/
theorem append (own bindings : List (Nat × Value)) :
    Keeps assigned (own.map Prod.fst) bindings (own ++ bindings) := by
  induction own with
  | nil => exact refl bindings
  | cons b own ih => exact ih.bind b.1 b.2

/-- An assignment that is allowed changes no other value. -/
theorem assign (h : Keeps assigned names before between) (hassign : assign? name v between = some after)
    (hallowed : ∀ k, place? name between = some k → assigned k name) :
    Keeps assigned names before after where
  names := by rw [Machine.map_fst_assign? hassign, h.names]
  values k b hb hnot := by
    have hkept := h.values k b hb hnot
    obtain ⟨j, hplace, hsame⟩ := assign?_eq_some hassign
    obtain ⟨v', hv'⟩ := exists_of_place? hplace
    have hne : k ≠ j := by
      rintro rfl
      rw [hkept] at hv'
      cases hv'
      exact hnot (hallowed k hplace)
    rw [hsame k hne, hkept]

/-- Giving up new bindings leaves the others as they are. -/
theorem drop (h : Keeps assigned (names' ++ names) before after) :
    Keeps assigned names before (after.drop names'.length) where
  names := by rw [List.map_drop, h.names, List.append_assoc, List.drop_left]
  values k b hb hnot := by
    have hkept := h.values k b hb hnot
    have hlength : after.length = names'.length + (names.length + before.length) := by
      have hlength := congrArg List.length h.names
      simpa [Nat.add_assoc] using hlength
    have hlt : k < before.length := by simpa using (List.getElem?_eq_some_iff.mp hb).1
    rw [List.reverse_drop, List.getElem?_take_of_lt (by omega), hkept]

/-- The innermost binding can be removed if it is a new one. -/
theorem remove? (h : Keeps assigned (name :: names) before between)
    (hremove : Bindings.remove? name between = some after) : Keeps assigned names before after := by
  cases between with
  | nil => cases hremove
  | cons b rest =>
    have hnames := h.names
    rw [List.map_cons, List.cons_append, List.cons.injEq] at hnames
    rw [Bindings.remove?, if_pos hnames.1] at hremove
    cases hremove
    have hinnermost : Keeps assigned ([name] ++ names) before (b :: after) := h
    exact hinnermost.drop

end Keeps

/-- A variable that is not assigned keeps its innermost value. -/
theorem Keeps.get? (h : Keeps (fun _ x => x ≠ name) [] before after) :
    Bindings.get? name after = Bindings.get? name before := by
  have hnames := h.names
  induction before generalizing after with
  | nil => rw [List.map_eq_nil_iff.mp hnames]
  | cons b before ih =>
    obtain _ | ⟨b', after⟩ := after
    · cases hnames
    · rw [List.nil_append, List.map_cons, List.map_cons, List.cons.injEq] at hnames
      have hlength : after.length = before.length := by
        simpa using congrArg List.length hnames.2
      have hrest : Keeps (fun _ x => x ≠ name) [] before after := by
        refine ⟨hnames.2, fun k c hc hnot => ?_⟩
        have hlt : k < before.length := by simpa using (List.getElem?_eq_some_iff.mp hc).1
        have hkept := h.values k c (by rw [getElem?_reverse_cons, if_neg (Nat.ne_of_lt hlt), hc]) hnot
        rwa [getElem?_reverse_cons, if_neg (by omega)] at hkept
      have hfirst : b.1 = name → b' = b := by
        intro hname
        have hkept := h.values before.length b (by rw [getElem?_reverse_cons, if_pos rfl])
          (not_not_intro hname)
        rw [getElem?_reverse_cons, if_pos hlength.symm] at hkept
        exact Option.some.inj hkept
      have hsame := ih hrest hnames.2
      unfold Bindings.get? at hsame ⊢
      rw [List.find?_cons, List.find?_cons, hnames.1]
      by_cases hname : b.1 = name
      · rw [hname, beq_self_eq_true]
        simp [hfirst hname]
      · rw [beq_false_of_ne hname]
        exact hsame

end Bindings

namespace Machine

variable {schema : Schema} {t : Tables} {i : Instr} {m m' : Machine} {k : Int}

/-- A jump leaves the bindings alone. -/
theorem bindings_of_step_jump (h : m.step schema t i = .jump k m') : m'.bindings = m.bindings := by
  have hjumps := step_eq_jump.mp h
  cases hjumps <;> rfl

/-- An instruction that neither binds nor removes a variable leaves the bindings alone. -/
theorem bindings_of_step_next (hset : ∀ name assign, i ≠ .setVar name assign)
    (hunset : ∀ name, i ≠ .unsetVar name) (h : m.step schema t i = .next m') :
    m'.bindings = m.bindings := by
  have hadvances := step_eq_next.mp h
  cases hadvances with
  | declare | assign => exact absurd rfl (hset _ _)
  | unsetVar => exact absurd rfl (hunset _)
  | _ => rfl

end Machine

variable {schema : Schema} {t : Tables} {i : Instr} {m m' : Machine}
  {assigned : Nat → Nat → Prop} {vars above : List Nat} {base : List (Nat × Value)}

/-- An instruction that removes nothing but the innermost variable of a scope, and assigns only where
that is allowed, keeps all other bindings. -/
theorem Machine.keeps_step (h : Bindings.Keeps assigned (vars ++ above) base m.bindings)
    (hstep : m.step schema t i = .next m') (hunset : ∀ name, i = .unsetVar name → vars.head? = some name)
    (hassign : ∀ name, i = .setVar name true → ∀ k, Bindings.place? name m.bindings = some k →
      assigned k name) :
    Bindings.Keeps assigned (i.scope vars ++ above) base m'.bindings := by
  have hadvances := step_eq_next.mp hstep
  cases hadvances with
  | @declare name v => exact h.bind name v
  | @assign name _ _ _ _ hbindings => exact h.assign hbindings (hassign name rfl)
  | @unsetVar name _ hbindings =>
    obtain ⟨rest, rfl⟩ := List.head?_eq_some_iff.mp (hunset name rfl)
    exact h.remove? hbindings
  | _ => exact h

/-- The innermost variable of a scope can be removed. -/
theorem Machine.step_unsetVar {name : Nat} (h : Bindings.Keeps assigned (vars ++ above) base m.bindings)
    (hhead : vars.head? = some name) :
    ∃ bindings, m.step schema t (.unsetVar name) = .next { m with bindings := bindings } := by
  obtain ⟨rest, rfl⟩ := List.head?_eq_some_iff.mp hhead
  have hnames := h.names
  obtain ⟨b, bindings, hbindings⟩ : ∃ b bindings, m.bindings = b :: bindings := by
    cases hm : m.bindings with
    | nil => simp [hm] at hnames
    | cons b bindings => exact ⟨b, bindings, rfl⟩
  rw [hbindings, List.map_cons, List.cons_append, List.cons_append, List.cons.injEq] at hnames
  refine ⟨bindings, ?_⟩
  simp only [step, hbindings, Bindings.remove?, if_pos hnames.1]

end Stencil

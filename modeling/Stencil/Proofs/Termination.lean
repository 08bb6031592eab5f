import Mathlib.Order.WellFoundedSet
import Stencil.Proofs.Points
import Stencil.Proofs.Structure
import Stencil.Session

/-!
# Termination

A render ends if its templates do not call each other in a circle. The only way back in the code of a
template is the jump from the end of a loop to its `NEXT`, and each turn takes an element from the
iterator of the loop. What an iterator has yet to deliver never grows: the entries of a value are fixed
when the loop starts, and a stream, which other loops may read as well, only gets shorter. So every
piece of code ends if the calls in it do, and calls can be looked at in the order in which templates
depend on each other.
-/

namespace Stencil

namespace Streams

variable {streams after : Streams} {id : Nat} {v : Value}

/-- The number of elements that a stream has yet to deliver. -/
def pending (streams : Streams) (id : Nat) : Nat := (streams.queues[id]?.getD []).length

/-- Whether elements have only been taken from the streams. -/
def Drains (before after : Streams) : Prop := ∀ id, after.pending id ≤ before.pending id

/-- Streams that are left alone have been drained. -/
theorem Drains.refl (streams : Streams) : Drains streams streams := fun _ => Nat.le_refl _

/-- Streams that are drained twice are drained. -/
theorem Drains.trans {between : Streams} (h : streams.Drains between) (h' : between.Drains after) :
    streams.Drains after := fun id => (h' id).trans (h id)

/-- Receiving an element takes it from its stream and leaves the others alone. -/
theorem receive?_eq_some (h : streams.receive? id = some (v, after)) :
    streams.Drains after ∧ after.pending id < streams.pending id := by
  unfold receive? at h
  split at h
  · next w rest hqueue =>
    obtain ⟨-, rfl⟩ := Prod.mk.inj (Option.some.inj h)
    obtain ⟨hid, -⟩ := List.getElem?_eq_some_iff.mp hqueue
    have hpending (j : Nat) : (Streams.mk (streams.queues.set id rest)).pending j =
        if id = j then rest.length else streams.pending j := by
      simp only [pending, List.getElem?_set]
      split <;> simp_all
    have hown : streams.pending id = rest.length + 1 := by simp [pending, hqueue]
    refine ⟨fun j => ?_, ?_⟩
    · rw [hpending]
      split
      · next heq =>
        rw [← heq]
        omega
      · exact Nat.le_refl _
    · rw [hpending, if_pos rfl]
      omega
  · cases h

end Streams

namespace Iteration

variable {it it' : Iteration} {streams after : Streams} {e : Value × Value}

/-- The number of elements that an iterator has yet to deliver. -/
def remaining (streams : Streams) : Iteration → Nat
  | entries rest => rest.length
  | stream id _ => streams.pending id

/-- An iterator has no more to deliver when streams have been drained. -/
theorem remaining_le (h : streams.Drains after) (it : Iteration) :
    it.remaining after ≤ it.remaining streams := by
  cases it with
  | entries rest => exact Nat.le_refl _
  | stream id count => exact h id

/-- Each turn of a loop leaves fewer elements. -/
theorem next?_eq_some (h : it.next? streams = some (e, it', after)) :
    streams.Drains after ∧ it'.remaining after < it.remaining streams := by
  cases it with
  | entries rest =>
    cases rest with
    | nil => cases h
    | cons first rest =>
      obtain ⟨-, h⟩ := Prod.mk.inj (Option.some.inj h)
      obtain ⟨rfl, rfl⟩ := Prod.mk.inj h
      exact ⟨.refl streams, Nat.lt_succ_self _⟩
  | stream id count =>
    obtain ⟨⟨v, streams'⟩, hreceive, hnext⟩ := Option.map_eq_some_iff.mp h
    obtain ⟨-, hnext⟩ := Prod.mk.inj hnext
    obtain ⟨rfl, rfl⟩ := Prod.mk.inj hnext
    exact Streams.receive?_eq_some hreceive

end Iteration

namespace Effect

variable {D E body again finish : Effect}

/-- Whether an effect always has an outcome and, if it succeeds, leaves the iterators as they are and
takes elements from the streams only. -/
structure Halts (D : Effect) : Prop where
  exists_outcome : ∀ m, ∃ o, D m o
  iterations : ∀ {m m' : Machine}, D m (.done m') → m'.iterations = m.iterations
  drains : ∀ {m m' : Machine}, D m (.done m') → m.streams.Drains m'.streams

/-- Whether an effect uses up the innermost iterator, if that has less than so many elements left. -/
def Exhausts (bound : Nat) (D : Effect) : Prop :=
  ∀ (m : Machine) (it : Iteration) (others : List Iteration), m.iterations = it :: others →
    it.remaining m.streams < bound →
      (∃ o, D m o) ∧ ∀ m', D m (.done m') → m'.iterations = others ∧ m.streams.Drains m'.streams

/-- Doing nothing ends. -/
theorem halts_skip : Halts skip where
  exists_outcome m := ⟨.done m, rfl⟩
  iterations h := by cases h; rfl
  drains h := by cases h; exact .refl _

/-- Two effects that end do so in sequence. -/
theorem Halts.andThen (hD : Halts D) (hE : Halts E) : Halts (D.andThen E) where
  exists_outcome m := by
    obtain ⟨o, ho⟩ := hD.exists_outcome m
    cases o with
    | done m₁ =>
      obtain ⟨o, hrest⟩ := hE.exists_outcome m₁
      exact ⟨o, Or.inl ⟨m₁, ho, hrest⟩⟩
    | failed e sink streams => exact ⟨.failed e sink streams, Or.inr ⟨trivial, ho⟩⟩
  iterations h := by
    rcases h with ⟨m₁, hfirst, hrest⟩ | ⟨hfails, -⟩
    · rw [hE.iterations hrest, hD.iterations hfirst]
    · exact hfails.elim
  drains h := by
    rcases h with ⟨m₁, hfirst, hrest⟩ | ⟨hfails, -⟩
    · exact (hD.drains hfirst).trans (hE.drains hrest)
    · exact hfails.elim

/-- A choice between effects that end does so. -/
theorem Halts.choose (hD : Halts D) (hE : Halts E) : Halts (D.choose E) where
  exists_outcome m := by
    unfold Effect.choose
    split
    · exact hD.exists_outcome m
    · exact hE.exists_outcome m
  iterations h := by
    unfold Effect.choose at h
    split at h
    · exact hD.iterations h
    · exact hE.iterations h
  drains h := by
    unfold Effect.choose at h
    split at h
    · exact hD.drains h
    · exact hE.drains h

/-- A turn takes one of the remaining elements; what comes after it has to use up the others. -/
theorem exhausts_forNext {bound : Nat} (hbody : Halts body) (hagain : Exhausts bound again)
    (hfinish : Halts finish) : Exhausts (bound + 1) ((body.andThen again).forNext finish) := by
  intro m it others hits hbound
  cases hnext : it.next? m.streams with
  | none =>
    simp only [forNext, hits, hnext]
    refine ⟨hfinish.exists_outcome _, fun m' h => ⟨hfinish.iterations h, ?_⟩⟩
    have hdrains := hfinish.drains h
    exact hdrains
  | some r =>
    obtain ⟨⟨position, v⟩, it', streams⟩ := r
    simp only [forNext, hits, hnext]
    obtain ⟨hdrains, hfewer⟩ := Iteration.next?_eq_some hnext
    -- The body may read the stream of the iterator too, which leaves even fewer elements.
    have hturn {m₁ m₂ : Machine} (hits₁ : m₁.iterations = it' :: others) (hstreams : m₁.streams = streams)
        (h : body m₁ (.done m₂)) :
        m₂.iterations = it' :: others ∧ it'.remaining m₂.streams < bound := by
      have hless := Iteration.remaining_le (hbody.drains h) it'
      rw [hstreams] at hless
      exact ⟨(hbody.iterations h).trans hits₁, by omega⟩
    constructor
    · obtain ⟨o, ho⟩ := hbody.exists_outcome
        { m with stack := v :: position :: m.stack, iterations := it' :: others, streams := streams }
      cases o with
      | done m₂ =>
        obtain ⟨hits₂, hbound₂⟩ := hturn rfl rfl ho
        obtain ⟨o, hrest⟩ := (hagain m₂ it' others hits₂ hbound₂).1
        exact ⟨o, Or.inl ⟨m₂, ho, hrest⟩⟩
      | failed e sink streams => exact ⟨.failed e sink streams, Or.inr ⟨trivial, ho⟩⟩
    · intro m' h
      rcases h with ⟨m₂, hfirst, hrest⟩ | ⟨hfails, -⟩
      · obtain ⟨hits₂, hbound₂⟩ := hturn rfl rfl hfirst
        obtain ⟨hits', hdrains'⟩ := (hagain m₂ it' others hits₂ hbound₂).2 m' hrest
        exact ⟨hits', hdrains.trans ((hbody.drains hfirst).trans hdrains')⟩
      · exact hfails.elim

/-- A loop ends after as many turns as there are elements, by induction on their number. -/
theorem exhausts_loop (hbody : Halts body) (hfinish : Halts finish) (bound : Nat) :
    Exhausts bound (body.loop finish) := by
  induction bound with
  | zero => exact fun _ _ _ _ h => absurd h (Nat.not_lt_zero _)
  | succ bound ih =>
    rw [loop_eq]
    exact exhausts_forNext hbody ih hfinish

end Effect

/-! ### Code -/

/-- An instruction that neither jumps nor starts an iterator leaves the iterators and the streams
alone. -/
theorem Machine.iterations_of_step_next {schema : Schema} {t : Tables} {i : Instr} {m m' : Machine}
    (hi : i.isPlain) (h : m.step schema t i = .next m') :
    m'.iterations = m.iterations ∧ m'.streams = m.streams := by
  have hadvances := Machine.step_eq_next.mp h
  cases hadvances with
  | iter | turn | jmpf | jmpt => cases hi
  | _ => exact ⟨rfl, rfl⟩

namespace Env

variable {env : Env} {i : Instr} {guarded : Prop} {code : List Instr}

/-- An instruction other than a call does one step. -/
theorem halts_instr (hi : i.isPlain) (hnot : ∀ ns index, i ≠ .template ns index) :
    (env.instr i).Halts where
  exists_outcome m := by
    cases hstep : m.step env.schema env.tables i with
    | next m' => exact ⟨.done m', (instr_of_not_template hnot _ _).mpr (by rw [hstep]; rfl)⟩
    | jump k m' =>
      have hk := Machine.distance?_of_step_jump hstep
      rw [Instr.distance?_of_isPlain hi] at hk
      cases hk
    | fail e m' =>
      exact ⟨.failed e m'.sink m'.streams, (instr_of_not_template hnot _ _).mpr (by rw [hstep]; rfl)⟩
  iterations h :=
    (Machine.iterations_of_step_next hi ((instr_eq_done hnot).mp h)).1
  drains h := by
    rw [(Machine.iterations_of_step_next hi ((instr_eq_done hnot).mp h)).2]
    exact .refl _

/-- Starting an iterator for an effect that uses it up. -/
theorem halts_iter {D : Effect} (hD : ∀ bound, D.Exhausts bound) :
    ((env.instr .iter).andThen D).Halts := by
  have hstart (m : Machine) : (∃ e, ∀ o, env.instr .iter m o ↔ o = .failed e m.sink m.streams) ∨
      ∃ it, ∀ o, env.instr .iter m o ↔ o = .done { m with iterations := it :: m.iterations } := by
    have hdo {r : Outcome} := instr_of_step env (i := .iter) (m := m) (r := r) nofun
    cases hstack : m.stack with
    | nil => exact Or.inl ⟨_, hdo (by simp only [Machine.step, hstack]; rfl)⟩
    | cons v stack =>
      cases hit : Iteration.start v with
      | error e => exact Or.inl ⟨e, hdo (by simp only [Machine.step, hstack, hit]; rfl)⟩
      | ok it => exact Or.inr ⟨it, hdo (by simp only [Machine.step, hstack, hit]; rfl)⟩
  have hrest (m : Machine) (it : Iteration) :=
    hD _ { m with iterations := it :: m.iterations } it m.iterations rfl (Nat.lt_succ_self _)
  refine ⟨fun m => ?_, fun {m m'} h => ?_, fun {m m'} h => ?_⟩
  · rcases hstart m with ⟨e, hfail⟩ | ⟨it, hdone⟩
    · exact ⟨_, (Effect.andThen_of_eq hfail _).mpr rfl⟩
    · obtain ⟨o, ho⟩ := (hrest m it).1
      exact ⟨o, (Effect.andThen_of_eq hdone o).mpr ho⟩
  all_goals
    rcases hstart m with ⟨e, hfail⟩ | ⟨it, hdone⟩
    · cases (Effect.andThen_of_eq hfail _).mp h
    · have hend := (hrest m it).2 m' ((Effect.andThen_of_eq hdone _).mp h)
      first | exact hend.1 | exact hend.2

/-- Straight-line code ends. -/
theorem halts_straight (h : Straight code) : (env.Runs code).Halts := by
  induction code with
  | nil =>
    rw [runs_nil]
    exact Effect.halts_skip
  | cons i code ih =>
    have hi := Instr.isPlain_of_isStraight h.head
    rw [runs_cons (Instr.distance?_of_isPlain hi) h.tail.closed]
    refine (halts_instr hi fun ns index heq => ?_).andThen (ih h.tail)
    have hstraight := h.head
    rw [heq] at hstraight
    cases hstraight

/-- The code of a template ends if the calls in it do. -/
theorem halts_structured (h : Structured guarded code)
    (hcalls : ∀ ns index, .template ns index ∈ code → (env.call ns index).Halts) :
    (env.Runs code).Halts := by
  induction h with
  | nil =>
    rw [runs_nil]
    exact Effect.halts_skip
  | @instr i hi =>
    rw [runs_singleton (Instr.distance?_of_isPlain hi)]
    by_cases hcall : ∃ ns index, i = .template ns index
    · obtain ⟨ns, index, rfl⟩ := hcall
      exact hcalls ns index (List.mem_singleton_self _)
    · exact halts_instr hi fun ns index heq => hcall ⟨ns, index, heq⟩
  | append hcode hrest ihcode ihrest =>
    rw [runs_append hcode.closed hrest.closed]
    exact (ihcode fun ns index hmem => hcalls ns index (List.mem_append_left _ hmem)).andThen
      (ihrest fun ns index hmem => hcalls ns index (List.mem_append_right _ hmem))
  | @conditional condition body orElse hstraight _ hbody hother ihbody ihother =>
    rw [runs_append hstraight.closed (Compile.closed_conditionalCode hbody.closed hother.closed),
      Compile.runs_conditionalCode hbody.closed hother.closed]
    exact (halts_straight hstraight).andThen (.choose
      (ihbody fun ns index hmem => hcalls ns index
        (List.mem_append_right _ (Compile.body_subset_conditionalCode hmem)))
      (ihother fun ns index hmem => hcalls ns index
        (List.mem_append_right _ (Compile.other_subset_conditionalCode hmem))))
  | @range body orElse hbody hother ihbody ihother =>
    rw [runs_cons rfl (Compile.closed_loopCode hbody.closed hother.closed),
      Compile.runs_loopCode hbody.closed hother.closed]
    have hturn := ihbody fun ns index hmem => hcalls ns index
      (List.mem_cons_of_mem _ (Compile.body_subset_loopCode hmem))
    have helse := ihother fun ns index hmem => hcalls ns index
      (List.mem_cons_of_mem _ (Compile.other_subset_loopCode hmem))
    refine halts_iter fun bound => ?_
    have hloop := Effect.exhausts_forNext hturn (Effect.exhausts_loop hturn Effect.halts_skip bound) helse
    exact fun m it others hits hbound => hloop m it others hits (by omega)

end Env

namespace TemplateSet

/-- Whether a template of the set contains a call of another one. -/
def Calls (set : TemplateSet) (caller target : String) : Prop :=
  ∃ tree, set.get? caller = some tree ∧ target ∈ Node.allTargets tree.root.nodes

/-- Whether templates never call each other in a circle. -/
def Acyclic (set : TemplateSet) : Prop := ∀ name, ¬Relation.TransGen set.Calls name name

/-- What holds of a template if it holds of all that it calls holds of all templates, if they do not
call each other in a circle. -/
theorem Acyclic.induction {set : TemplateSet} (h : set.Acyclic) {P : String → Prop}
    (hstep : ∀ name, (∀ target, set.Calls name target → P target) → P name) (name : String) :
    P name := by
  have hfinite : {name | ∃ tree, set.get? name = some tree}.Finite := by
    refine (List.finite_toSet (set.toList.map Prod.fst)).subset fun name hname => ?_
    obtain ⟨tree, htree⟩ := hname
    exact List.mem_map.mpr ⟨(name, tree), Compile.mem_toList_iff.mpr htree, rfl⟩
  let depends (target name : String) : Prop := Relation.TransGen set.Calls name target
  have : IsStrictOrder String depends :=
    { irrefl := h
      trans := fun _ _ _ hab hbc => Relation.TransGen.trans hbc hab }
  have hwf : {name | ∃ tree, set.get? name = some tree}.WellFoundedOn depends := hfinite.wellFoundedOn
  have hmissing {name : String} (hnone : ¬∃ tree, set.get? name = some tree) : P name :=
    hstep name fun _ hcall => absurd ⟨hcall.choose, hcall.choose_spec.1⟩ hnone
  by_cases hname : ∃ tree, set.get? name = some tree
  · refine hwf.induction hname fun name _ ih => hstep name fun target hcall => ?_
    by_cases htarget : ∃ tree, set.get? target = some tree
    · exact ih target htarget (.single hcall)
    · exact hmissing htarget
  · exact hmissing hname

end TemplateSet

/-! ### Programs -/

namespace Program

variable {p : Program} {run : String → CompiledTemplate → Effect} {ns index : Nat} {target : String}

/-- A call ends if its target does. -/
theorem halts_enter (hname : p.tables.strings[index]? = some target)
    (hrun : ∀ t, p.templates[target]? = some t → (run target t).Halts) :
    (p.enter run ns index).Halts := by
  have hcallee {m : Machine} {nsName name : String} {v : Value}
      (h : m.callee p ns index = .ok (nsName, name, v)) : name = target := by
    unfold Machine.callee at h
    rw [hname] at h
    split at h <;> cases h
    next hindex _ => exact (Option.some.inj hindex).symm
  have hstart (nsName : String) (v : Value) (m : Machine) :
      (m.activate nsName v).iterations = m.iterations ∧ (m.activate nsName v).streams = m.streams := by
    obtain ⟨own, hactivate⟩ := Machine.activate_eq nsName v m
    rw [hactivate]
    exact ⟨rfl, rfl⟩
  refine ⟨fun m => ?_, fun {m m'} h => ?_, fun {m m'} h => ?_⟩
  · unfold enter
    cases hc : m.callee p ns index with
    | error e => exact ⟨_, rfl⟩
    | ok r =>
      obtain ⟨nsName, name, v⟩ := r
      obtain rfl := hcallee hc
      simp only
      cases ht : p.templates[name]? with
      | none => exact ⟨_, rfl⟩
      | some t =>
        obtain ⟨o, ho⟩ := (hrun t ht).exists_outcome (m.activate nsName v)
        exact ⟨_, o, ho, rfl⟩
  all_goals
    obtain ⟨nsName, name, v, t, after, hc, ht, hdone, rfl⟩ := enter_eq_done h
    obtain rfl := hcallee hc
    obtain ⟨hits, hstreams⟩ := hstart nsName v m
  · exact ((hrun t ht).iterations hdone).trans hits
  · have hdrains := (hrun t ht).drains hdone
    rwa [hstreams] at hdrains

/-- More fuel does not change a run of a template that has ended. -/
theorem run_of_le {fuel more : Nat} {name : String} {data vars : Value} {m : Machine}
    (hle : fuel ≤ more) (h : p.run fuel name data vars m ≠ .outOfFuel) :
    p.run more name data vars m = p.run fuel name data vars m := by
  unfold run at h ⊢
  simp only at h ⊢
  split at h
  · rfl
  · exact runFrom_of_le hle h

end Program

/-- Taking out a machine leaves the program as it is. -/
theorem Session.program_checkout (s : Session) (pooled : Bool) :
    (s.checkout pooled).2.program = s.program := by
  unfold checkout
  split <;> rfl

namespace Compile

variable {schema : Schema} {registry : Registry} {options : CompileOptions} {set : TemplateSet}
  {p : Program}

/-- The code of each template ends, by induction on the templates that it calls. -/
theorem halts_compile (hcompile : compile schema registry options set = .ok p) (hset : set.Acyclic)
    {name : String} {u : CompiledTemplate} (hu : p.templates[name]? = some u) :
    (p.env.Runs u.code.toList).Halts := by
  revert u
  induction name using hset.induction with
  | hstep name ih =>
    intro u hu
    obtain ⟨tree, htree, hwritten⟩ := exists_tree_of_compile hcompile hu
    obtain ⟨hstructured, hcalls⟩ := hwritten.structured
    refine Env.halts_structured hstructured fun ns index hmem => ?_
    obtain ⟨target, htarget, -, hname⟩ := hcalls _ hmem
    have hcall : p.env.call ns index = p.enter (fun _ t => p.env.Runs t.code.toList) ns index := by
      rw [← p.call_eq]
      rfl
    rw [hcall]
    exact Program.halts_enter hname fun t ht => ih target ⟨tree, htree, htarget⟩ ht

/-- Each run of each template ends. -/
theorem exists_renders (hcompile : compile schema registry options set = .ok p) (hset : set.Acyclic)
    (name : String) (data vars : Value) (m : Machine) : ∃ o, p.Renders name data vars m o := by
  cases hu : p.templates[name]? with
  | none => exact ⟨_, (Program.renders_iff_of_none hu).mpr rfl⟩
  | some u =>
    obtain ⟨o, ho⟩ := (halts_compile hcompile hset hu).exists_outcome _
    exact ⟨o, (Program.renders_iff hu).mpr ho⟩

/-- If no template of a set calls itself, be it through others, then every render of every template ends
in success or in an error after finitely many instructions. The streams deliver what is in their queues
and then end. -/
theorem renders_end_without_recursion (hcompile : compile schema registry options set = .ok p)
    (hset : set.Acyclic) (s : Session) (hs : s.program = p) (r : RenderRequest) :
    ∃ fuel, (s.render fuel r).1 ≠ .outOfFuel ∧
      ∀ more, fuel ≤ more → s.render more r = s.render fuel r := by
  unfold Session.render
  by_cases hname : s.program.hasTemplate r.name
  · simp only [if_pos hname]
    have hprogram := s.program_checkout (s.options.override r.options).poolStates
    generalize s.checkout (s.options.override r.options).poolStates = q at hprogram ⊢
    obtain ⟨spare, s'⟩ := q
    obtain ⟨o, fuel, hends⟩ := exists_renders hcompile hset r.name r.data r.vars.toValue
      { spare with dot := .nil, sink := r.sink, streams := s'.streams }
    rw [← hs, ← hprogram] at hends
    have hfuel : s'.program.run fuel r.name r.data r.vars.toValue
        { spare with dot := .nil, sink := r.sink, streams := s'.streams } ≠ .outOfFuel := by
      intro hout
      rw [hout] at hends
      cases hends
    refine ⟨fuel, ?_, fun more hle => by simp only [Program.run_of_le hle hfuel]⟩
    simp only
    split
    · nofun
    · nofun
    · next hout => exact absurd hout hfuel
  · simp only [if_neg hname]
    exact ⟨0, nofun, fun _ _ => trivial⟩

/-- In the sample set only `main` calls a template. -/
theorem acyclic_sample : Sample.set.Acyclic := by
  have htargets : ∀ entry ∈ Sample.set.toList,
      Node.allTargets entry.2.root.nodes = if entry.1 = "main" then ["end"] else [] := by decide +kernel
  have hcalls {caller target : String} (h : Sample.set.Calls caller target) :
      caller = "main" ∧ target = "end" := by
    obtain ⟨tree, htree, hmem⟩ := h
    have htarget := htargets (caller, tree) (mem_toList_iff.mpr htree)
    simp only at htarget
    rw [htarget] at hmem
    split at hmem
    · next hcaller => exact ⟨hcaller, List.mem_singleton.mp hmem⟩
    · cases hmem
  intro name hcircle
  obtain ⟨_, hfirst, -⟩ := Relation.TransGen.head'_iff.mp hcircle
  obtain ⟨_, -, hlast⟩ := Relation.TransGen.tail'_iff.mp hcircle
  have hsame := (hcalls hfirst).1.symm.trans (hcalls hlast).2
  simp at hsame

/-- A render of the sample set over a stream with two elements ends. -/
theorem renders_end_without_recursion_sample :
    ∃ p, compile .plain .empty .standard Sample.set = .ok p ∧ Sample.set.Acyclic ∧
      ∃ fuel, ((Session.start p .standard ⟨[[.int 0, .int 5]]⟩).render fuel
        ⟨"main", .stream 0, .empty, ⟨none⟩, .unlimited⟩).1 ≠ .outOfFuel := by
  obtain ⟨p, hp⟩ := exists_compile_sample
  obtain ⟨fuel, hends, -⟩ := renders_end_without_recursion hp acyclic_sample
    (Session.start p .standard ⟨[[.int 0, .int 5]]⟩) rfl ⟨"main", .stream 0, .empty, ⟨none⟩, .unlimited⟩
  exact ⟨p, hp, acyclic_sample, fuel, hends⟩

end Compile
end Stencil

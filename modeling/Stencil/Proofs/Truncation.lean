import Stencil.Proofs.Independence
import Stencil.Session

/-!
# Truncated output

A sink that takes only so many bytes cuts the output of a render off and changes nothing else. The
machine never looks at its sink, so a render into such a sink goes the same way until the first write that
does not fit; that write is taken in part and ends the render.
-/

namespace Stencil

namespace Sink

/-- The sink that has taken the same bytes and takes `room` bytes in all. -/
def bounded (room : Nat) (failure : String) (s : Sink) : Sink :=
  ⟨s.written, some (room - s.written.size, failure)⟩

/-- A sink with room for `room` bytes that was to take more. -/
def full (room : Nat) (failure : String) (s : Sink) : Sink :=
  ⟨s.written.extract 0 room, some (0, failure)⟩

/-- Whether a sink takes everything and has taken all that another one has taken, and maybe more. -/
def Continues (s s' : Sink) : Prop :=
  s'.bound = none ∧ ∃ more, s'.written = s.written ++ more

variable {s s' s'' : Sink} {room : Nat} {failure : String} {bytes : ByteArray}

/-- A sink without a bound continues itself. -/
theorem Continues.refl (h : s.bound = none) : s.Continues s :=
  ⟨h, .empty, ByteArray.append_empty.symm⟩

/-- Sinks continue one another in sequence. -/
theorem Continues.trans (h : s.Continues s') (h' : s'.Continues s'') : s.Continues s'' := by
  obtain ⟨-, more, hmore⟩ := h
  obtain ⟨hbound, more', hmore'⟩ := h'
  exact ⟨hbound, more ++ more', by rw [hmore', hmore, ByteArray.append_assoc]⟩

/-- A sink without a bound takes what is written. -/
theorem write_of_bound (h : s.bound = none) (bytes : ByteArray) :
    s.write bytes = (⟨s.written ++ bytes, none⟩, none) := by
  obtain ⟨written, bound⟩ := s
  cases h
  rfl

/-- A write into a bounded sink fits, or it fills the sink. -/
theorem write_bounded (h : s.written.size ≤ room) (bytes : ByteArray) :
    (s.bounded room failure).write bytes =
      if s.written.size + bytes.size ≤ room then
        (bounded room failure ⟨s.written ++ bytes, none⟩, none)
      else (full room failure ⟨s.written ++ bytes, none⟩, some failure) := by
  simp only [bounded, full, write, ByteArray.size_append]
  by_cases hfits : s.written.size + bytes.size ≤ room
  · rw [if_pos hfits, if_pos (by omega), Nat.sub_sub]
  · rw [if_neg hfits, if_neg (by omega), ByteArray.extract_append, extract_of_size_le h, Nat.zero_sub]

/-- A full sink has not missed more of what is written later. -/
theorem Continues.full_eq (h : s.Continues s') (hroom : room ≤ s.written.size) :
    s'.full room failure = s.full room failure := by
  obtain ⟨-, more, hmore⟩ := h
  simp only [full, hmore, ByteArray.extract_append, Nat.zero_sub, Nat.sub_eq_zero_of_le hroom,
    ByteArray.extract_same, ByteArray.append_empty]

/-- A sink that continues another one has taken no less. -/
theorem Continues.size_le (h : s.Continues s') : s.written.size ≤ s'.written.size := by
  obtain ⟨-, more, hmore⟩ := h
  rw [hmore, ByteArray.size_append]
  exact Nat.le_add_right _ _

end Sink

namespace Step

/-- The machine of a step. -/
def machine : Step → Machine
  | next m | jump _ m | fail _ m => m

/-- Two changes of the machine of a step are one. -/
theorem map_map (f g : Machine → Machine) (s : Step) : (s.map f).map g = s.map (g ∘ f) := by
  cases s <;> rfl

/-- The machine of a changed step is the changed machine. -/
@[simp]
theorem machine_map (f : Machine → Machine) (s : Step) : (s.map f).machine = f s.machine := by
  cases s <;> rfl

end Step

namespace Machine

/-- The machine with another sink. -/
def into (sink : Sink) (m : Machine) : Machine := { m with sink := sink }

/-- The machine with room for `room` bytes in all. -/
def bounded (room : Nat) (failure : String) (m : Machine) : Machine :=
  m.into (m.sink.bounded room failure)

end Machine

/-- Whether an instruction writes to the sink. -/
def Instr.writes : Instr → Bool
  | print | wb _ => true
  | _ => false

/-- Whether a step into a bounded sink does what a step does, or it fails because more is written than
fits. -/
inductive Step.Truncates (room : Nat) (failure : String) : Step → Step → Prop where
  | same {s : Step} : s.machine.sink.written.size ≤ room →
      Truncates room failure s (s.map (·.bounded room failure))
  | cut {s : Step} {m : Machine} : room < s.machine.sink.written.size →
      m.sink = s.machine.sink.full room failure →
      Truncates room failure s (.fail (.write failure) m)

namespace Machine

variable {schema : Schema} {t : Tables} {i : Instr} {m m' : Machine} {sink : Sink} {room : Nat}
  {failure : String}

/-- A machine with another sink has the same values. -/
theorem overlays_into (sink : Sink) : Overlays (into sink) [] := fun m stack => by
  rw [List.append_nil]
  rfl

/-- An instruction that writes nothing does not depend on the sink. -/
theorem step_into_of_writes (hi : i.writes = false) (sink : Sink) (m : Machine) :
    (m.into sink).step schema t i = (m.step schema t i).map (into sink) := by
  have hcomputes (hi : i.computes) :
      (m.into sink).step schema t i = (m.step schema t i).map (into sink) :=
    ((overlays_into sink).step hi).resolve_right fun h => h.1 rfl
  cases i
  case print | wb => cases hi
  case field | func | string | val => exact hcomputes rfl
  case pop n =>
    cases n with
    | zero =>
      simp only [step, into]
      cases m.marks <;> rfl
    | succ n =>
      simp only [step, apply_ite (Step.map (into sink))]
      rfl
  case jmpf k | jmpt k =>
    simp only [step, apply_ite (Step.map (into sink))]
    rfl
  case setVar name assign =>
    simp only [step, into]
    cases m.stack with
    | nil => rfl
    | cons v stack =>
      cases assign with
      | false => rfl
      | true =>
        simp only [if_true]
        cases Bindings.assign? name v m.bindings <;> rfl
  all_goals
    simp only [step, into]
    repeat' split
    all_goals rfl

/-- An instruction that writes nothing leaves the sink as it is. -/
theorem sink_step_of_writes (hi : i.writes = false) (m : Machine) :
    (m.step schema t i).machine.sink = m.sink := by
  have hsame : m.step schema t i = (m.step schema t i).map (into m.sink) :=
    step_into_of_writes hi m.sink m
  rw [hsame, Step.machine_map]
  rfl

/-- Two instructions write to the sink, and no other instruction depends on it. -/
theorem step_into (schema : Schema) (t : Tables) (i : Instr) (m : Machine) :
    (∃ bytes, ∀ sink, (m.into sink).step schema t i = (m.into sink).write bytes) ∨
      ∀ sink, (m.into sink).step schema t i = (m.step schema t i).map (into sink) := by
  cases i
  case print =>
    cases hstack : m.stack with
    | nil => exact .inr fun sink => by simp only [step, into, hstack]; rfl
    | cons v stack =>
      cases hprinted : v.printed schema with
      | error e => exact .inr fun sink => by simp only [step, into, hstack, print_eq, hprinted]; rfl
      | ok s => exact .inl ⟨s.toUTF8, fun sink => by simp only [step, into, hstack, print_eq, hprinted]⟩
  case wb index =>
    cases hchunk : t.chunks[index]? with
    | none => exact .inr fun sink => by simp only [step, hchunk]; rfl
    | some bytes => exact .inl ⟨bytes, fun sink => by simp only [step, hchunk]⟩
  all_goals exact .inr fun sink => step_into_of_writes rfl sink m

/-- What an instruction writes comes behind what has been written. -/
theorem continues_step (h : m.sink.bound = none) :
    m.sink.Continues (m.step schema t i).machine.sink := by
  have hsame : m.into m.sink = m := rfl
  rcases step_into schema t i m with ⟨bytes, hwrite⟩ | hquiet
  · have hstep := hwrite m.sink
    rw [hsame, write, Sink.write_of_bound h] at hstep
    rw [hstep]
    exact ⟨rfl, bytes, rfl⟩
  · have hstep := hquiet m.sink
    rw [hsame] at hstep
    rw [hstep, Step.machine_map]
    exact .refl h

/-- A step into a bounded sink does the same, unless it writes more than fits. -/
theorem step_bounded (h : m.sink.bound = none) (hroom : m.sink.written.size ≤ room) :
    Step.Truncates room failure (m.step schema t i) ((m.bounded room failure).step schema t i) := by
  have hsame : m.into m.sink = m := rfl
  rcases step_into schema t i m with ⟨bytes, hwrite⟩ | hquiet
  · have hstep := hwrite m.sink
    rw [hsame, write, Sink.write_of_bound h] at hstep
    have hsink : (m.into (m.sink.bounded room failure)).sink = m.sink.bounded room failure := rfl
    rw [bounded, hwrite, write, hstep, hsink, Sink.write_bounded hroom, ← ByteArray.size_append]
    by_cases hfits : (m.sink.written ++ bytes).size ≤ room
    · rw [if_pos hfits]
      exact .same hfits
    · rw [if_neg hfits]
      exact .cut (Nat.lt_of_not_le hfits) rfl
  · have hstep := hquiet m.sink
    rw [hsame] at hstep
    have hkept : (m.step schema t i).machine.sink = m.sink := by
      rw [hstep, Step.machine_map]
      rfl
    have hmap : (m.step schema t i).map (into (m.sink.bounded room failure)) =
        (m.step schema t i).map (·.bounded room failure) := by
      rw [hstep, Step.map_map, Step.map_map]
      rfl
    rw [bounded, hquiet, hmap]
    exact .same (hkept ▸ hroom)

end Machine

namespace Run

/-- The machine on which a run has ended. -/
def machine? : Run → Option Machine
  | done m | failed _ m => some m
  | outOfFuel => none

/-- Whether a run into a bounded sink ends as a run does, or it fails because more is written than
fits. -/
inductive Truncates (room : Nat) (failure : String) : Run → Run → Prop where
  | done {m : Machine} : m.sink.written.size ≤ room →
      Truncates room failure (.done m) (.done (m.bounded room failure))
  | failed {e : ExecutionError} {m : Machine} : m.sink.written.size ≤ room →
      Truncates room failure (.failed e m) (.failed e (m.bounded room failure))
  | cut {r : Run} {m m' : Machine} {place : Option Location} : r.machine? = some m →
      room < m.sink.written.size → m'.sink = m.sink.full room failure →
      Truncates room failure r (.failed ⟨.write failure, place⟩ m')

/-- A run that has ended has a machine. -/
theorem exists_machine {r : Run} (h : r ≠ .outOfFuel) : ∃ m, r.machine? = some m := by
  cases r with
  | done m | failed _ m => exact ⟨m, rfl⟩
  | outOfFuel => exact absurd rfl h

end Run

/-- An activation keeps the sink. -/
theorem Machine.sink_activate (ns : String) (v : Value) (m : Machine) :
    (m.activate ns v).sink = m.sink := by
  obtain ⟨own, hactivate⟩ := Machine.activate_eq ns v m
  rw [hactivate]

/-- An activation may be given a bound before or after. -/
theorem Machine.activate_bounded (ns : String) (v : Value) (m : Machine) (room : Nat)
    (failure : String) :
    (m.bounded room failure).activate ns v = (m.activate ns v).bounded room failure := by
  unfold activate bounded into
  simp only [bind]
  split
  · rfl
  · split <;> rfl

namespace Program

variable {p : Program} {fuel pc ns index : Nat} {name : String} {t : CompiledTemplate}
  {m after : Machine} {place : Option Location} {room : Nat} {failure : String}

/-- Whether a relation of machines is kept by everything that runs do to them. -/
structure Respects (p : Program) (R : Machine → Machine → Prop) : Prop where
  refl : ∀ m, R m m
  trans : ∀ {m₁ m₂ m₃}, R m₁ m₂ → R m₂ m₃ → R m₁ m₃
  step : ∀ (m : Machine) (i : Instr), R m (m.step p.schema p.tables i).machine
  activate : ∀ (m : Machine) (ns : String) (v : Value), R m (m.activate ns v)
  leave : ∀ m after : Machine, R after (m.leave after)

section

variable {R : Machine → Machine → Prop}

/-- The machine of a run is related to the one on which it has ended. -/
theorem Respects.related (hR : p.Respects R) {r : Run} (h : p.Executes name t pc m r)
    (hends : r.machine? = some after) : R m after := by
  have hstep {m : Machine} {i : Instr} {s : Step} (hs : m.step p.schema p.tables i = s) :
      R m s.machine := hs ▸ hR.step m i
  induction h generalizing after with
  | stop =>
    cases hends
    exact hR.refl _
  | next _ _ hs _ ih => exact hR.trans (hstep hs) (ih hends)
  | jump _ hs _ _ ih => exact hR.trans (hstep hs) (ih hends)
  | call _ _ _ _ _ ihbody ihrest =>
    have hcall := hR.trans (hR.activate _ _ _) (ihbody rfl)
    exact hR.trans (hR.trans hcall (hR.leave _ _)) (ihrest hends)
  | raise _ _ _ _ ih =>
    cases hends
    exact hR.trans (hR.activate _ _ _) (ih rfl)
  | fail _ _ hs =>
    cases hends
    exact hstep hs
  | astray _ hs =>
    cases hends
    exact hstep hs
  | uncalled | missing =>
    cases hends
    exact hR.refl _

/-- A run only leads to machines that are related to the one that it has started on. -/
theorem Respects.related_runFrom (hR : p.Respects R)
    (h : (p.runFrom fuel name t pc m).machine? = some after) : R m after :=
  hR.related (executes_of_runFrom rfl (fun hout => by rw [hout] at h; cases h)) h

/-- A call respects what the runs of its target respect. -/
theorem Respects.related_called (hR : p.Respects R)
    (h : (p.called fuel place ns index m).machine? = some after) : R m after := by
  unfold called at h
  split at h
  · cases h
    exact hR.refl m
  · next nsName target v _ =>
    split at h
    · cases h
      exact hR.refl m
    · next u _ =>
      have hbody {m₁ : Machine} (hrun : (p.runFrom fuel target u 0 (m.activate nsName v)).machine? =
          some m₁) : R m m₁ := hR.trans (hR.activate m nsName v) (hR.related_runFrom hrun)
      cases hrun : p.runFrom fuel target u 0 (m.activate nsName v) with
      | outOfFuel =>
        rw [hrun] at h
        cases h
      | done m₁ =>
        rw [hrun] at h
        cases h
        exact hR.trans (hbody (congrArg Run.machine? hrun)) (hR.leave m m₁)
      | failed e m₁ =>
        rw [hrun] at h
        cases h
        exact hbody (congrArg Run.machine? hrun)

end

/-- Nothing that has been written is taken back. -/
theorem respects_continues (p : Program) :
    p.Respects fun m m' => m.sink.bound = none → m.sink.Continues m'.sink where
  refl _ := .refl
  trans h h' hbound := (h hbound).trans (h' (h hbound).1)
  step _ _ := Machine.continues_step
  activate m ns v hbound := by
    rw [Machine.sink_activate]
    exact .refl hbound
  leave _ _ := .refl

/-- What a run writes comes behind what has been written. -/
theorem continues_runFrom (hbound : m.sink.bound = none)
    (h : (p.runFrom fuel name t pc m).machine? = some after) : m.sink.Continues after.sink :=
  p.respects_continues.related_runFrom h hbound

/-- A run that goes on after more has been written than fits is one that a failure has cut off. -/
theorem truncates_of_cut {cut : Machine} (hbound : m.sink.bound = none)
    (hends : p.runFrom fuel name t pc m ≠ .outOfFuel) (hover : room < m.sink.written.size)
    (hfull : cut.sink = m.sink.full room failure) :
    Run.Truncates room failure (p.runFrom fuel name t pc m) (.failed ⟨.write failure, place⟩ cut) := by
  obtain ⟨last, hlast⟩ := Run.exists_machine hends
  have hcontinues := continues_runFrom hbound hlast
  exact .cut hlast (Nat.lt_of_lt_of_le hover hcontinues.size_le)
    (hfull.trans (hcontinues.full_eq (Nat.le_of_lt hover)).symm)

/-- Whether all runs that end with this fuel go the same way into a bounded sink, until more is written
than fits. -/
def TruncatesWithin (p : Program) (fuel room : Nat) (failure : String) : Prop :=
  ∀ {name : String} {t : CompiledTemplate} {pc : Nat} {m : Machine}, m.sink.bound = none →
    m.sink.written.size ≤ room → p.runFrom fuel name t pc m ≠ .outOfFuel →
      Run.Truncates room failure (p.runFrom fuel name t pc m)
        (p.runFrom fuel name t pc (m.bounded room failure))

/-- A call into a bounded sink goes the same way if the runs of its target do. -/
theorem TruncatesWithin.truncates_called (h : p.TruncatesWithin fuel room failure)
    (hbound : m.sink.bound = none) (hroom : m.sink.written.size ≤ room)
    (hends : p.called fuel place ns index m ≠ .outOfFuel) :
    Run.Truncates room failure (p.called fuel place ns index m)
      (p.called fuel place ns index (m.bounded room failure)) := by
  have hsame : (m.bounded room failure).callee p ns index = m.callee p ns index := rfl
  unfold called at hends ⊢
  rw [hsame]
  split at hends
  · exact .failed hroom
  · next nsName target v _ =>
    split at hends
    · exact .failed hroom
    · next u _ =>
      have hsink : (m.activate nsName v).sink = m.sink := Machine.sink_activate nsName v m
      have hbody : Run.Truncates room failure (p.runFrom fuel target u 0 (m.activate nsName v))
          (p.runFrom fuel target u 0 ((m.activate nsName v).bounded room failure)) :=
        h (by rw [hsink]; exact hbound) (by rw [hsink]; exact hroom) fun hout => by
          simp only [hout, ne_eq, not_true_eq_false] at hends
      rw [Machine.activate_bounded]
      generalize p.runFrom fuel target u 0 (m.activate nsName v) = r at hbody
      generalize p.runFrom fuel target u 0 ((m.activate nsName v).bounded room failure) = r' at hbody
      cases hbody with
      | done hroom' => exact .done hroom'
      | failed hroom' => exact .failed hroom'
      | cut hafter hover hfull =>
        cases r with
        | done after | failed e after =>
          cases hafter
          exact .cut rfl hover hfull
        | outOfFuel => cases hafter

/-- An instruction other than a call and what comes behind it go the same way into a bounded sink. -/
theorem TruncatesWithin.truncates_step {i : Instr} (h : p.TruncatesWithin fuel room failure)
    (hi : t.code[pc]? = some i) (hnot : ∀ ns index, i ≠ .template ns index)
    (hbound : m.sink.bound = none) (hroom : m.sink.written.size ≤ room)
    (hends : p.runFrom (fuel + 1) name t pc m ≠ .outOfFuel) :
    Run.Truncates room failure (p.runFrom (fuel + 1) name t pc m)
      (p.runFrom (fuel + 1) name t pc (m.bounded room failure)) := by
  rw [runFrom_of_step hi hnot] at hends ⊢
  rw [runFrom_of_step hi hnot]
  have hbound' : (m.step p.schema p.tables i).machine.sink.bound = none :=
    (Machine.continues_step hbound).1
  have hstep : Step.Truncates room failure (m.step p.schema p.tables i)
      ((m.bounded room failure).step p.schema p.tables i) := Machine.step_bounded hbound hroom
  generalize m.step p.schema p.tables i = s at hbound' hstep hends
  generalize (m.bounded room failure).step p.schema p.tables i = s' at hstep
  cases hstep with
  | same hroom' =>
    cases s with
    | next m₁ => exact h hbound' hroom' hends
    | jump k m₁ =>
      simp only [Step.map] at hends ⊢
      split at hends
      · exact h hbound' hroom' hends
      · exact .failed hroom'
    | fail e m₁ => exact .failed hroom'
  | cut hover hfull =>
    cases s with
    | next m₁ => exact truncates_of_cut hbound' hends hover hfull
    | jump k m₁ =>
      simp only at hends ⊢
      split at hends
      · exact truncates_of_cut hbound' hends hover hfull
      · exact .cut rfl hover hfull
    | fail e m₁ => exact .cut rfl hover hfull

/-- A run into a bounded sink goes the same way until more is written than fits. -/
theorem truncatesWithin (p : Program) (fuel room : Nat) (failure : String) :
    p.TruncatesWithin fuel room failure := by
  induction fuel with
  | zero => exact fun _ _ hends => absurd rfl hends
  | succ fuel ih =>
    intro name t pc m hbound hroom hends
    cases hi : t.code[pc]? with
    | none =>
      simp only [runFrom, hi]
      exact .done hroom
    | some i =>
      by_cases hcall : ∃ ns index, i = .template ns index
      · obtain ⟨ns, index, rfl⟩ := hcall
        rw [runFrom_of_template hi] at hends ⊢
        rw [runFrom_of_template hi]
        have hcalled : Run.Truncates room failure (p.called fuel (t.locate name pc) ns index m)
            (p.called fuel (t.locate name pc) ns index (m.bounded room failure)) :=
          ih.truncates_called hbound hroom fun hout => by
            simp only [hout, ne_eq, not_true_eq_false] at hends
        have hcontinues (after : Machine)
            (hafter : (p.called fuel (t.locate name pc) ns index m).machine? = some after) :
            after.sink.bound = none :=
          (p.respects_continues.related_called hafter hbound).1
        generalize p.called fuel (t.locate name pc) ns index m = r at hcalled hcontinues hends
        generalize p.called fuel (t.locate name pc) ns index (m.bounded room failure) = r' at hcalled
        cases hcalled with
        | @done after hroom' => exact ih (hcontinues after rfl) hroom' hends
        | failed hroom' => exact .failed hroom'
        | @cut _ after m' place hafter hover hfull =>
          cases r with
          | done _ =>
            cases hafter
            exact truncates_of_cut (hcontinues after rfl) hends hover hfull
          | failed e _ =>
            cases hafter
            exact .cut rfl hover hfull
          | outOfFuel => cases hafter
      · have hnot : ∀ ns index, i ≠ .template ns index := fun ns index heq => hcall ⟨ns, index, heq⟩
        exact ih.truncates_step hi hnot hbound hroom hends

/-- A render into a bounded sink goes the same way until more is written than fits. -/
theorem truncates_run {data vars : Value} (hbound : m.sink.bound = none)
    (hroom : m.sink.written.size ≤ room) (hends : p.run fuel name data vars m ≠ .outOfFuel) :
    Run.Truncates room failure (p.run fuel name data vars m)
      (p.run fuel name data vars (m.bounded room failure)) := by
  have hsink : ((m.bind Tables.varsVar vars).activate "" data).sink = m.sink :=
    Machine.sink_activate "" data _
  have hbind : (m.bounded room failure).bind Tables.varsVar vars =
      (m.bind Tables.varsVar vars).bounded room failure := rfl
  simp only [run, hbind, Machine.activate_bounded] at hends ⊢
  split at hends
  · exact .failed hroom
  · exact p.truncatesWithin fuel room failure (by rw [hsink]; exact hbound) (by rw [hsink]; exact hroom)
      hends

end Program

namespace Rendered

/-- What a render that has ended has written. -/
def output? : Rendered → Option ByteArray
  | done sink | failed _ sink => some sink.written
  | outOfFuel => none

/-- The error of a render that has failed. -/
def error? : Rendered → Option EngineError
  | failed e _ => some e
  | _ => none

end Rendered

namespace Session

/-- A render into a sink that takes only `room` bytes and then fails delivers the first `room` bytes of
what it delivers into a sink that takes everything. If there are no more than that, it ends the same way,
otherwise it fails with the failure of the sink. -/
theorem failing_sink_truncates (s : Session) (fuel : Nat) (r : RenderRequest) (room : Nat)
    (failure : String) {output : ByteArray}
    (houtput : (s.render fuel { r with sink := .unlimited }).1.output? = some output) :
    let whole := (s.render fuel { r with sink := .unlimited }).1
    let part := (s.render fuel { r with sink := .limited room failure }).1
    part.output? = some (output.extract 0 (min room output.size)) ∧
      (output.size ≤ room → part.error? = whole.error?) ∧
      (room < output.size →
        ∃ place source, part.error? = some (.runtime ⟨.write failure, place⟩ source)) := by
  have hall {bytes : ByteArray} (h : bytes.size ≤ room) :
      bytes.extract 0 (min room bytes.size) = bytes := by
    rw [Nat.min_eq_right h, ByteArray.extract_zero_size]
  unfold render at houtput ⊢
  by_cases hname : s.program.hasTemplate r.name
  · simp only [if_pos hname] at houtput ⊢
    generalize s.checkout (s.options.override r.options).poolStates = q at houtput ⊢
    obtain ⟨spare, s'⟩ := q
    have hlimited : ({ spare with dot := .nil, sink := .limited room failure, streams := s'.streams } :
        Machine) = Machine.bounded room failure
          { spare with dot := .nil, sink := .unlimited, streams := s'.streams } := rfl
    simp only [hlimited] at houtput ⊢
    generalize hwhole : s'.program.run fuel r.name r.data r.vars.toValue
      { spare with dot := .nil, sink := .unlimited, streams := s'.streams } = whole at houtput ⊢
    generalize hpart : s'.program.run fuel r.name r.data r.vars.toValue (Machine.bounded room failure
      { spare with dot := .nil, sink := .unlimited, streams := s'.streams }) = part
    have hends : whole ≠ .outOfFuel := by
      rintro rfl
      cases houtput
    have hruns : Run.Truncates room failure whole part := by
      subst hwhole hpart
      exact Program.truncates_run rfl (Nat.zero_le room) hends
    cases hruns with
    | done hroom | failed hroom =>
      cases houtput
      exact ⟨congrArg some (hall hroom).symm, fun _ => rfl, fun hover => absurd hroom (by omega)⟩
    | @cut _ m m' place hend hover hfull =>
      obtain rfl : m.sink.written = output := by
        cases whole with
        | done _ | failed _ _ =>
          cases hend
          exact Option.some.inj houtput
        | outOfFuel => cases hend
      refine ⟨?_, fun hroom => absurd hover (by omega), fun _ => ⟨place, _, rfl⟩⟩
      rw [Nat.min_eq_left (Nat.le_of_lt hover)]
      exact congrArg (some ∘ Sink.written) hfull
  · simp only [if_neg hname] at houtput ⊢
    cases houtput
    have hempty : ByteArray.empty.size ≤ room := Nat.zero_le room
    exact ⟨congrArg some (hall hempty).symm, fun _ => rfl, fun hover => nomatch hover⟩

/-- The sample set renders to `-1.`, of which a sink with room for two bytes gets `-1`. -/
theorem failing_sink_truncates_sample :
    ∃ p, Compile.compile .plain .empty .standard Sample.set = .ok p ∧
      ∃ output, ((start p .standard .none).render 100
          ⟨"main", .seq [.int 0, .int 5], .empty, ⟨none⟩, .unlimited⟩).1.output? = some output ∧
        output = "-1.".toUTF8 ∧
        ((start p .standard .none).render 100
          ⟨"main", .seq [.int 0, .int 5], .empty, ⟨none⟩, .limited 2 "full"⟩).1.output? =
            some (output.extract 0 (min 2 output.size)) ∧
        ∃ place source, ((start p .standard .none).render 100
          ⟨"main", .seq [.int 0, .int 5], .empty, ⟨none⟩, .limited 2 "full"⟩).1.error? =
            some (.runtime ⟨.write "full", place⟩ source) := by
  obtain ⟨p, hp⟩ := Compile.exists_compile_sample
  have houtput : (Compile.compile .plain .empty .standard Sample.set).toOption.all fun p =>
      decide (((start p .standard .none).render 100
        ⟨"main", .seq [.int 0, .int 5], .empty, ⟨none⟩, .unlimited⟩).1.output? =
          some "-1.".toUTF8) := by
    decide +kernel
  rw [hp] at houtput
  have houtput := of_decide_eq_true houtput
  obtain ⟨hpart, -, hover⟩ := failing_sink_truncates (start p .standard .none) 100
    ⟨"main", .seq [.int 0, .int 5], .empty, ⟨none⟩, .unlimited⟩ 2 "full" houtput
  exact ⟨p, hp, _, houtput, rfl, hpart, hover (by decide +kernel)⟩

end Session
end Stencil

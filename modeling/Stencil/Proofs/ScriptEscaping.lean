import Stencil.Proofs.EscaperCalls
import Stencil.Proofs.Parts
import Stencil.Proofs.Printing
import Stencil.Proofs.Rendering
import Stencil.Proofs.ScriptData

/-!
# Values in script source

A single operand is written into script source as the datum that it stands for, whatever it is made of,
unless there is a function or a stream somewhere in it. Several operands are written as one string, the text
that is printed for them.
-/

namespace Stencil

namespace Builtin

variable {schema : Schema} {args vs : List Value} {v w : Value} {j : Json} {js : List Json}

/-! ### The data that values stand for -/

/-- Values have data if the first one has and the others have. -/
theorem toJsonList_cons (v : Value) (vs : List Value) :
    toJsonList (v :: vs) =
      match toJson v with
      | .error e => .error e
      | .ok j => (toJsonList vs).map (j :: ·) := by
  rw [toJsonList]
  cases toJson v with
  | error e => rfl
  | ok j => cases toJsonList vs <;> rfl

/-- The data of entries are those of their values, under their keys. -/
theorem toJsonEntries_eq (entries : List (Key × Value)) :
    toJsonEntries entries =
      (toJsonList (entries.map (·.2))).map (entries.map (·.1.display)).zip := by
  induction entries with
  | nil => rfl
  | cons e entries ih =>
    obtain ⟨k, v⟩ := e
    simp only [toJsonEntries, ih, List.map_cons, toJsonList_cons]
    cases toJson v with
    | error e => rfl
    | ok j => cases toJsonList (entries.map (·.2)) <;> rfl

/-- The datum of a map is made from the data of its values. -/
theorem toJson_map (kind : KeyKind) (entries : List (Key × Value)) :
    toJson (.map kind entries) =
      (toJsonList (entries.map (·.2))).map fun js =>
        .object (Entries.ofList ((entries.map (·.1.display)).zip js)) := by
  rw [toJson, toJsonEntries_eq]
  cases toJsonList (entries.map (·.2)) <;> rfl

/-- What is made from the data of values fails exactly if one of them has no datum. -/
theorem map_toJsonList_eq_error_iff (build : List Json → Json) (vs : List Value) :
    (∃ e, (toJsonList vs).map build = .error e) ↔ ∃ v ∈ vs, ∃ e, toJson v = .error e := by
  have hmap : (∃ e, (toJsonList vs).map build = .error e) ↔ ∃ e, toJsonList vs = .error e := by
    cases toJsonList vs <;> simp [Except.map]
  rw [hmap]
  clear hmap
  induction vs with
  | nil => exact iff_of_false nofun nofun
  | cons v vs ih =>
    simp only [List.mem_cons, exists_eq_or_imp, ← ih, toJsonList_cons]
    cases toJson v with
    | error e => simp
    | ok j => cases toJsonList vs <;> simp [Except.map]

/-- The data of several values start with that of the first one. -/
theorem toJsonList_cons_eq_ok (h : toJsonList (v :: vs) = .ok js) :
    ∃ k ks, toJson v = .ok k ∧ toJsonList vs = .ok ks ∧ js = k :: ks := by
  rw [toJsonList_cons] at h
  cases hv : toJson v with
  | error e =>
    rw [hv] at h
    cases h
  | ok k =>
    cases hvs : toJsonList vs with
    | error e =>
      rw [hv, hvs] at h
      cases h
    | ok ks =>
      rw [hv, hvs] at h
      cases h
      exact ⟨k, ks, rfl, rfl, rfl⟩

/-- The data of values have finite numbers if that of each value has. -/
theorem isFinite_of_mem_toJsonList (hvs : ∀ v ∈ vs, ∀ j, toJson v = .ok j → j.IsFinite)
    (h : toJsonList vs = .ok js) : ∀ j ∈ js, j.IsFinite := by
  induction vs generalizing js with
  | nil =>
    cases h
    exact nofun
  | cons v vs ih =>
    obtain ⟨k, ks, hk, hks, rfl⟩ := toJsonList_cons_eq_ok h
    obtain ⟨hv, hvs⟩ := List.forall_mem_cons.mp hvs
    exact List.forall_mem_cons.mpr ⟨hv k hk, ih hvs hks⟩

/-- What is made from data with finite numbers has finite numbers. -/
theorem isFinite_of_map_toJsonList {build : List Json → Json}
    (hbuild : ∀ js, (∀ j ∈ js, j.IsFinite) → (build js).IsFinite)
    (hvs : ∀ v ∈ vs, ∀ j, toJson v = .ok j → j.IsFinite) (h : (toJsonList vs).map build = .ok j) :
    j.IsFinite := by
  cases hjs : toJsonList vs with
  | error e =>
    rw [hjs] at h
    cases h
  | ok js =>
    rw [hjs] at h
    cases h
    exact hbuild js (isFinite_of_mem_toJsonList hvs hjs)

/-- An object has finite numbers if its members have. -/
theorem isFinite_object_ofList (names : List String) (js : List Json) (h : ∀ j ∈ js, j.IsFinite) :
    (Json.object (Entries.ofList (names.zip js))).IsFinite :=
  .object fun _ hm => h _ (List.of_mem_zip (Entries.mem_of_mem_ofList hm)).2

/-- A value has no datum exactly if it is a function or a stream or one of its parts has none. -/
theorem toJson_eq_error_iff_components :
    (∃ e, toJson v = .error e) ↔ v.isHandle = true ∨ ∃ w ∈ v.components, ∃ e, toJson w = .error e := by
  cases v with
  | seq items =>
    simpa [toJson, Value.isHandle, Value.components] using map_toJsonList_eq_error_iff .array items
  | map kind entries => simp [toJson_map, map_toJsonList_eq_error_iff, Value.isHandle, Value.components]
  | record ty fields addressable =>
    simpa [toJson, Value.isHandle, Value.components] using map_toJsonList_eq_error_iff _ fields
  | func | stream => simp [toJson, Value.isHandle]
  | _ => simp [toJson, Value.isHandle, Value.components]

/-- A value has a datum unless a function or a stream occurs in it. -/
theorem toJson_eq_error_iff :
    (∃ e, toJson v = .error e) ↔ ∃ r : Value, r.Part v ∧ r.isHandle = true := by
  constructor
  · induction v using Value.induction_components with
    | h v ih =>
      intro herror
      rcases toJson_eq_error_iff_components.mp herror with hhandle | ⟨w, hw, herror⟩
      · exact ⟨v, .self, hhandle⟩
      · obtain ⟨r, hpart, hhandle⟩ := ih w hw herror
        exact ⟨r, .inside hw hpart, hhandle⟩
  · rintro ⟨r, hpart, hhandle⟩
    induction hpart with
    | self => exact toJson_eq_error_iff_components.mpr (.inl hhandle)
    | inside hw _ ih => exact toJson_eq_error_iff_components.mpr (.inr ⟨_, hw, ih⟩)

/-- The data that values stand for have finite numbers only. -/
theorem isFinite_of_toJson (v : Value) : ∀ j, toJson v = .ok j → j.IsFinite := by
  induction v using Value.induction_components with
  | h v ih =>
    intro j h
    cases v with
    | seq items => exact isFinite_of_map_toJsonList (fun _ => .array) ih h
    | map kind entries =>
      rw [toJson_map] at h
      exact isFinite_of_map_toJsonList (isFinite_object_ofList _) ih h
    | record ty fields addressable => exact isFinite_of_map_toJsonList (isFinite_object_ofList _) ih h
    | ptr target => exact ih target (List.mem_singleton_self target) j h
    | box content => exact ih content (List.mem_singleton_self content) j h
    | float x =>
      cases h
      split
      · exact .null
      · next hfinite =>
        obtain ⟨hnan, hinfinite⟩ := Bool.or_eq_false_iff.mp (eq_false_of_ne_true hfinite)
        exact .float hnan hinfinite
    | func | stream => cases h
    | nil | nilPtr | nilBox => cases h; exact .null
    | bool b => cases h; exact .bool b
    | int i => cases h; exact .int i
    | text kind s => cases h; exact .string s

/-! ### Operands -/

/-- The datum that operands stand for: that of a single operand, and otherwise the string that is printed
for the operands. -/
inductive Denotes (schema : Schema) : List Value → Json → Prop where
  | one {v : Value} {j : Json} (hv : toJson v = .ok j) : Denotes schema [v] j
  | several {args : List Value} {p : String} (hargs : ∀ v, args ≠ [v]) (hp : Value.Prints schema args p) :
    Denotes schema args (.string p)

/-- Whether there is a function or a stream in the way of a datum: anywhere in a single operand, or behind
the pointers and boxes of one of several operands. -/
inductive Obstructed : List Value → Prop where
  | one {v r : Value} (hpart : r.Part v) (hhandle : r.isHandle = true) : Obstructed [v]
  | several {args : List Value} {v c : Value} (hargs : ∀ v, args ≠ [v]) (hv : v ∈ args)
      (hleads : v.LeadsTo c) (hhandle : c.isHandle = true) : Obstructed args

/-- There is one operand or there is not. -/
theorem single_or_several (args : List Value) : (∃ v, args = [v]) ∨ ∀ v, args ≠ [v] :=
  (Decidable.em (args.length = 1)).imp List.length_eq_one_iff.mp fun hlength _ heq => hlength (heq ▸ rfl)

/-- Operands that are not a single one are written as the text printed for them. -/
theorem operandsJson_of_several (hargs : ∀ v, args ≠ [v]) :
    operandsJson schema args =
      match Value.printedAll schema args with
      | .ok s => .ok (.string s)
      | .error e => .error e.message := by
  unfold operandsJson
  split
  · next v => exact absurd rfl (hargs v)
  · rfl

/-- What is written for operands is a datum that they stand for. -/
theorem denotes_of_operandsJson (h : operandsJson schema args = .ok j) : Denotes schema args j := by
  rcases single_or_several args with ⟨v, rfl⟩ | hargs
  · exact .one h
  · rw [operandsJson_of_several hargs] at h
    cases hp : Value.printedAll schema args with
    | error e =>
      rw [hp] at h
      cases h
    | ok p =>
      rw [hp] at h
      cases h
      exact .several hargs (Value.printedAll_eq_ok_iff.mp hp)

/-- Nothing is written for operands exactly if something is in the way of it. -/
theorem operandsJson_eq_error_iff : (∃ e, operandsJson schema args = .error e) ↔ Obstructed args := by
  rcases single_or_several args with ⟨v, rfl⟩ | hargs
  · refine toJson_eq_error_iff.trans ⟨fun ⟨r, hpart, hhandle⟩ => .one hpart hhandle, fun h => ?_⟩
    cases h with
    | one hpart hhandle => exact ⟨_, hpart, hhandle⟩
    | several hargs => exact absurd rfl (hargs v)
  · have hprinted : (∃ e, operandsJson schema args = .error e) ↔
        ∃ e, Value.printedAll schema args = .error e := by
      rw [operandsJson_of_several hargs]
      cases Value.printedAll schema args <;> simp
    rw [hprinted, Value.printedAll_eq_error_iff]
    refine ⟨fun ⟨v, hv, c, hleads, hhandle⟩ => .several hargs hv hleads hhandle, fun h => ?_⟩
    cases h with
    | one => exact absurd rfl (hargs _)
    | several _ hv hleads hhandle => exact ⟨_, hv, _, hleads, hhandle⟩

/-- The datum of operands has finite numbers. -/
theorem Denotes.isFinite (h : Denotes schema args j) : j.IsFinite := by
  cases h with
  | one hv => exact isFinite_of_toJson _ _ hv
  | several => exact .string _

/-- An empty box has the datum of nil. -/
theorem toJson_asOperand (v : Value) : toJson v.asOperand = toJson v := by
  cases v <;> rfl

/-- Operands with empty boxes have the datum of those with nil. -/
theorem operandsJson_asOperand (args : List Value) :
    operandsJson schema (args.map Value.asOperand) = operandsJson schema args := by
  rcases single_or_several args with ⟨v, rfl⟩ | hargs
  · exact toJson_asOperand v
  · have hoperands : ∀ v, args.map Value.asOperand ≠ [v] := by
      intro v heq
      obtain ⟨w, rfl, -⟩ := List.map_eq_singleton_iff.mp heq
      exact hargs w rfl
    rw [operandsJson_of_several hargs, operandsJson_of_several hoperands, Value.printedAll_asOperand]

/-- The escaper writes the datum of its operands, unless its only operand is script source. -/
theorem call_jsFunction (hargs : ∀ s, args ≠ [.js s]) :
    Call.function (jsFunction schema) args =
      match operandsJson schema args with
      | .ok j => .ok (.js (escapeScript j.render))
      | .error message => .error (.returnedError jsEscaperName message) := by
  have hoperands : ∀ s, args.map Value.asOperand ≠ [.js s] :=
    fun s h => hargs s (Value.map_asOperand_eq_text_iff.mp h)
  rw [jsFunction, Call.function_operands, jsEscaper, operandsJson_asOperand]
  · cases operandsJson schema args <;> rfl
  · exact hoperands

/-- Escaping for script source is safe and loses nothing. Unless the only operand is script source, the
escaper gives script source without reserved characters, which a reader of data takes for the datum that
the operands stand for, and it fails exactly if a function or a stream is in the way of it. -/
theorem script_escaping_is_lossless (hargs : ∀ s, args ≠ [.js s]) :
    (∀ v, Call.function (jsFunction schema) args = .ok v →
      ∃ j t, Denotes schema args j ∧ v = .js t ∧ (∀ c ∈ t.toList, c ∉ reserved) ∧
        Datum.read? t = some j.datum) ∧
    ((∃ e, Call.function (jsFunction schema) args = .error e) ↔ Obstructed args) := by
  rw [call_jsFunction hargs, ← @operandsJson_eq_error_iff schema]
  cases hj : operandsJson schema args with
  | error e => exact ⟨nofun, iff_of_true ⟨_, rfl⟩ ⟨_, rfl⟩⟩
  | ok j =>
    have hdenotes : Denotes schema args j := denotes_of_operandsJson hj
    refine ⟨?_, iff_of_false nofun nofun⟩
    rintro _ ⟨⟩
    refine ⟨j, _, hdenotes, rfl, fun c hc => ?_, read?_escapeScript (Json.read?_render hdenotes.isFinite)⟩
    rw [toList_escapeScript] at hc
    exact not_mem_reserved_of_mem_script hc

namespace Sample

/-- Texts with reserved characters and backslashes, and an integer behind a box, in a sequence. -/
def snippets : Value := .seq [.str "</b>\\<", .box (.int (-3)), .html "&\\\""]

/-- What is written for them. -/
def escapedSnippets : String := "[\"\\u003c/b\\u003e\\\\\\u003c\",-3,\"\\u0026\\\\\\\"\"]"

end Sample

/-- Reserved characters, backslashes and an integer behind a box, in a sequence. -/
theorem script_escaping_is_lossless_sample :
    (∀ s, [Sample.snippets] ≠ [.js s]) ∧
      Call.function (jsFunction .plain) [Sample.snippets] = .ok (.js Sample.escapedSnippets) ∧
      (∀ c ∈ Sample.escapedSnippets.toList, c ∉ reserved) ∧
      Datum.read? Sample.escapedSnippets =
        some (.array [.string "</b>\\<", .number "-3", .string "&\\\""]) := by
  have hargs : ∀ s, [Sample.snippets] ≠ [.js s] := nofun
  have hcall : Call.function (jsFunction .plain) [Sample.snippets] = .ok (.js Sample.escapedSnippets) := by
    rw [call_jsFunction hargs]
    rfl
  obtain ⟨j, t, hdenotes, heq, hsafe, hread⟩ :=
    (@script_escaping_is_lossless .plain [Sample.snippets] hargs).1 _ hcall
  cases heq
  cases hdenotes with
  | one hv =>
    obtain rfl : _ = j := Except.ok.inj hv
    exact ⟨hargs, hcall, hsafe, hread⟩
  | several hone => exact absurd rfl (hone _)

end Builtin
end Stencil

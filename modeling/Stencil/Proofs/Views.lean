import Stencil.Proofs.Ordered
import Stencil.Vars

/-!
# Views of variables

What templates see of the render variables. The view from a namespace has the variables of that
namespace under their local names, and under other names those of no namespace. A view of a view is
taken from what the first one has left, so it knows no variables of other namespaces than the first.
-/

namespace Stencil

namespace Namespace

variable {ns name key caller target : String}

/-- A name is local to a namespace if the namespace and the separator stand in front of it. -/
theorem localName?_eq_some_iff : localName? ns name = some key ↔ name = ns ++ "|" ++ key := by
  have hname : name = ns ++ "|" ++ key ↔ name.toList = ns.toList ++ separator :: key.toList := by
    rw [← String.toList_inj]
    simp [separator]
  rw [hname, localName?]
  split
  · next c rest hdrop =>
    rw [dropStart?_eq_some_iff] at hdrop
    rw [hdrop, List.append_cancel_left_eq, List.cons.injEq]
    split
    · next hc => simp [hc, ← String.toList_inj]
    · next hc => simp [hc]
  · next hdrop =>
    refine iff_of_false nofun fun heq => ?_
    exact hdrop separator key.toList (dropStart?_eq_some_iff.mpr heq)

/-- A target in the namespace of its caller is called in no namespace. -/
theorem relative_self (ns : String) : relative ns ns = "" := by
  unfold relative
  split
  · next hempty => exact String.isEmpty_iff.mp hempty
  · have hstrip : stripStart? ns ns = some "" := by
      rw [stripStart?, dropStart?_eq_some_iff.mpr (List.append_nil _).symm]
      rfl
    rw [hstrip]
    rfl

/-- Seen from no namespace, a namespace is itself. -/
theorem relative_empty (target : String) : relative "" target = target := rfl

end Namespace

namespace Vars

variable {vars : Vars} {ns key : String} {inside outside : List String}

/-- Variables that are made from a list are ordered. -/
theorem ordered_ofList (entries : List (String × Value)) : Entries.Ordered (ofList entries).entries :=
  Entries.ordered_ofList entries

/-- A view is ordered. -/
theorem ordered_unpack (vars : Vars) (ns : String) : Entries.Ordered (vars.unpack ns).entries :=
  ordered_ofList _

/-- Texts are ordered as keys as they are by themselves. -/
theorem compare_text (a b : String) : compare (Key.text a) (Key.text b) = compare a b := rfl

/-- As a map, variables in order have the same entries. -/
theorem toValue_eq (h : Entries.Ordered vars.entries) :
    vars.toValue = .map .text (Entries.mapKeys Key.text vars.entries) := by
  have hentries := Entries.mapKeys_ofList compare_text vars.entries
  rw [Entries.ofList_of_ordered h] at hentries
  rw [hentries]
  rfl

/-- Texts that have been made keys are found as texts. -/
theorem textEntries_mapKeys (entries : List (String × Value)) :
    Value.textEntries (Entries.mapKeys Key.text entries) = entries := by
  induction entries with
  | nil => rfl
  | cons e rest ih => exact congrArg (e :: ·) ih

/-- The view of the map of the variables is the map of their view. -/
theorem unpackMap_eq (hns : ns ≠ "") (entries : List (String × Value)) :
    Value.unpackMap .text (Entries.mapKeys Key.text entries) ns = (Vars.unpack ⟨entries⟩ ns).toValue := by
  have hempty : ns.isEmpty = false := by simpa [String.isEmpty_iff] using hns
  rw [toValue_eq (ordered_unpack _ ns), Value.unpackMap, hempty, textEntries_mapKeys]
  simp only [Bool.false_or, bne_self_eq_false, Bool.false_eq_true, if_false]
  exact congrArg _ (Entries.mapKeys_ofList compare_text (visible ns entries)).symm

/-! ### What a view shows -/

/-- The unqualified variables of a view. -/
theorem get?_unqualified (h : Entries.Ordered vars.entries) (key : String) :
    Entries.get? key (vars.entries.filter fun e => !Namespace.isQualified e.1) =
      if Namespace.isQualified key then none else vars.get? key := by
  have hfiltered : Entries.Distinct (vars.entries.filter fun e => !Namespace.isQualified e.1) :=
    h.distinct.filter _
  ext v
  rw [Entries.get?_eq_some_iff hfiltered, List.mem_filter]
  split
  · next hkey => simp [hkey]
  · next hkey => rw [get?, Entries.get?_eq_some_iff h.distinct]; simp [hkey]

/-- The variables of a namespace under their local names. -/
theorem distinct_local (h : Entries.Ordered vars.entries) (ns : String) :
    Entries.Distinct (vars.entries.filterMap fun e =>
      (Namespace.localName? ns e.1).map fun name => (name, e.2)) := by
  refine h.distinct.filterMap _ fun a b hne a' ha b' hb heq => hne ?_
  obtain ⟨name, hname, rfl⟩ := Option.map_eq_some_iff.mp ha
  obtain ⟨name', hname', rfl⟩ := Option.map_eq_some_iff.mp hb
  have heq : name = name' := heq
  rw [Namespace.localName?_eq_some_iff.mp hname, Namespace.localName?_eq_some_iff.mp hname', heq]

/-- The variables of a namespace are shown under their local names. -/
theorem get?_local (h : Entries.Ordered vars.entries) (ns key : String) :
    Entries.get? key (vars.entries.filterMap fun e =>
      (Namespace.localName? ns e.1).map fun name => (name, e.2)) = vars.get? (ns ++ "|" ++ key) := by
  ext v
  rw [Entries.get?_eq_some_iff (distinct_local h ns), get?, Entries.get?_eq_some_iff h.distinct,
    List.mem_filterMap]
  constructor
  · rintro ⟨e, he, hlocal⟩
    obtain ⟨name, hname, heq⟩ := Option.map_eq_some_iff.mp hlocal
    cases heq
    rwa [← Namespace.localName?_eq_some_iff.mp hname]
  · intro hmem
    refine ⟨_, hmem, ?_⟩
    rw [Namespace.localName?_eq_some_iff.mpr rfl]
    rfl

/-- A view shows the variables of its namespace under their local names, and else those of no
namespace. -/
theorem get?_unpack (h : Entries.Ordered vars.entries) (ns key : String) :
    (vars.unpack ns).get? key = (vars.get? (ns ++ "|" ++ key)).or
      (if Namespace.isQualified key then none else vars.get? key) := by
  have hunqualified : Entries.Ordered (vars.entries.filter fun e => !Namespace.isQualified e.1) :=
    h.filter _
  rw [unpack, get?, ofList, visible, Entries.ofList_append,
    Entries.get?_insertMany (distinct_local h ns), Entries.ofList_of_ordered hunqualified,
    get?_local h, get?_unqualified h]

/-- Behind a separator every name is qualified. -/
theorem isQualified_local (ns key : String) : Namespace.isQualified (ns ++ "|" ++ key) = true := by
  simp [Namespace.isQualified, Namespace.separator]

/-- A view of a view knows of the inner namespace only what the outer one has. -/
theorem get?_unpack_unpack (h : Entries.Ordered vars.entries) (outer inner key : String) :
    ((vars.unpack outer).unpack inner).get? key =
      (vars.get? (outer ++ "|" ++ inner ++ "|" ++ key)).or
        (if Namespace.isQualified key then none
          else (vars.get? (outer ++ "|" ++ key)).or (vars.get? key)) := by
  rw [get?_unpack (ordered_unpack vars outer), get?_unpack h, get?_unpack h, isQualified_local,
    if_pos rfl, Option.or_none, ← String.append_assoc, ← String.append_assoc]
  by_cases hkey : Namespace.isQualified key = true
  · rw [if_pos hkey, if_pos hkey]
  · rw [if_neg hkey, if_neg hkey, if_neg hkey]

/-- In a view the variables of the namespace shadow those of no namespace, whether it is taken of the
variables or of the map that they are; in a view of a view those of the inner namespace come first. -/
theorem views_shadow (h : Entries.Ordered vars.entries) :
    (∀ ns key, (vars.unpack ns).get? key = (vars.get? (ns ++ "|" ++ key)).or
      (if Namespace.isQualified key then none else vars.get? key)) ∧
    (∀ ns, ns ≠ "" → ∃ kind entries, vars.toValue = .map kind entries ∧
      Value.unpackMap kind entries ns = (vars.unpack ns).toValue) ∧
    ∀ outer inner key, ((vars.unpack outer).unpack inner).get? key =
      (vars.get? (outer ++ "|" ++ inner ++ "|" ++ key)).or
        (if Namespace.isQualified key then none
          else (vars.get? (outer ++ "|" ++ key)).or (vars.get? key)) :=
  ⟨get?_unpack h, fun _ hns => ⟨_, _, toValue_eq h, unpackMap_eq hns vars.entries⟩,
    get?_unpack_unpack h⟩

namespace Sample

/-- Variables of no namespace, of one, and of one inside of it. -/
def siteVars : Vars :=
  ofList [("Title", .str "site"), ("Shared", .int 1), ("blog|Title", .str "blog"),
    ("blog|admin|Title", .str "admin"), ("blogroll|Title", .str "roll")]

end Sample

/-- Variables of two namespaces, one of which starts with the name of the other, and a variable of none. -/
theorem views_shadow_sample :
    Entries.Ordered Sample.siteVars.entries ∧
      (Sample.siteVars.unpack "blog").get? "Title" = some (.str "blog") ∧
      (Sample.siteVars.unpack "blog").get? "Shared" = some (.int 1) ∧
      (Sample.siteVars.unpack "blog").get? "blogroll|Title" = none ∧
      ((Sample.siteVars.unpack "blog").unpack "admin").get? "Title" = some (.str "admin") ∧
      ∃ kind entries, Sample.siteVars.toValue = .map kind entries ∧
        Value.unpackMap kind entries "blog" = (Sample.siteVars.unpack "blog").toValue := by
  have hordered : Entries.Ordered Sample.siteVars.entries := ordered_ofList _
  obtain ⟨hview, hmap, hnested⟩ := views_shadow hordered
  refine ⟨hordered, ?_, ?_, ?_, ?_, hmap "blog" (by decide)⟩
  · rw [hview]; rfl
  · rw [hview]; rfl
  · rw [hview]; rfl
  · rw [hnested]; rfl

/-! ### Chains of calls -/

/-- The variables that a template sees when it is called in a namespace, where none stands for that of
its caller. -/
def seenIn (vars : Vars) (ns : String) : Vars := if ns.isEmpty then vars else vars.unpack ns

/-- The variables that are seen at the end of a chain of calls, whose innermost template is the first,
if those at its beginning are the given ones. -/
def seenAlong (vars : Vars) : List String → Vars
  | target :: caller :: chain =>
    (vars.seenAlong (caller :: chain)).seenIn
      (Namespace.relative (Namespace.of caller) (Namespace.of target))
  | _ => vars

/-- Without a namespace the view is not changed. -/
theorem seenIn_empty (vars : Vars) : vars.seenIn "" = vars := rfl

/-- In a namespace the view is unpacked. -/
theorem seenIn_eq_unpack (hns : ns ≠ "") : vars.seenIn ns = vars.unpack ns := by
  rw [seenIn, if_neg (by simpa [String.isEmpty_iff] using hns)]

/-- The view along a chain of calls is ordered. -/
theorem ordered_seenAlong (h : Entries.Ordered vars.entries) (chain : List String) :
    Entries.Ordered (vars.seenAlong chain).entries := by
  induction chain with
  | nil => exact h
  | cons target chain ih =>
    cases chain with
    | nil => exact h
    | cons caller chain =>
      rw [seenAlong, seenIn]
      split
      · exact ih
      · exact ordered_unpack _ _

/-- Outside of all namespaces all variables are seen as they are. -/
theorem seenAlong_outside (houtside : ∀ name ∈ outside, Namespace.of name = "") :
    vars.seenAlong outside = vars := by
  induction outside with
  | nil => rfl
  | cons target outside ih =>
    obtain ⟨htarget, hrest⟩ := List.forall_mem_cons.mp houtside
    cases outside with
    | nil => rfl
    | cons caller outside =>
      rw [seenAlong, ih hrest, htarget, (List.forall_mem_cons.mp hrest).1, Namespace.relative_self,
        seenIn_empty]

/-- A chain that enters one namespace and stays there ends with the view from it. -/
theorem seenAlong_inside (hns : ns ≠ "") (hinside : ∀ name ∈ inside, Namespace.of name = ns)
    (houtside : ∀ name ∈ outside, Namespace.of name = "") (hstart : outside ≠ [])
    (hend : inside ≠ []) : vars.seenAlong (inside ++ outside) = vars.unpack ns := by
  induction inside with
  | nil => exact absurd rfl hend
  | cons target inside ih =>
    obtain ⟨htarget, hrest⟩ := List.forall_mem_cons.mp hinside
    cases inside with
    | nil =>
      obtain ⟨caller, outside, rfl⟩ := List.exists_cons_of_ne_nil hstart
      have hcaller := houtside caller List.mem_cons_self
      rw [List.singleton_append, seenAlong, seenAlong_outside houtside, htarget, hcaller,
        Namespace.relative_empty, seenIn_eq_unpack hns]
    | cons caller inside =>
      have hcaller := (List.forall_mem_cons.mp hrest).1
      have hseen := ih hrest (List.cons_ne_nil _ _)
      rw [List.cons_append, List.cons_append, seenAlong, htarget, hcaller, Namespace.relative_self,
        seenIn_empty, ← List.cons_append, hseen]

end Vars
end Stencil

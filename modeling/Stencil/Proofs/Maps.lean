import Mathlib.Data.List.Induction
import Stencil.Builtin.Escape
import Stencil.Iteration
import Stencil.Proofs.Keys
import Stencil.Proofs.Ordered
import Stencil.Vars

/-!
# Maps in their one order

A table of associations has an order of its own, which depends on how its keys are hashed and on what has
been inserted when. Nothing of that can be seen: a map is observed in the order of its keys, and sorting the
associations of any table that has been filled by some insertions gives the entries that a map keeps. So
two maps that end with the same associations are the same to a range loop, in text, in script source and
to a namespace, whatever was inserted on the way.
-/

namespace Stencil

namespace Entries

variable {κ α : Type} {entries more : List (κ × α)}

/-- Entries with distinct keys are distinct. -/
theorem Distinct.nodup (h : Distinct entries) : entries.Nodup :=
  h.imp fun hne heq => hne (congrArg Prod.fst heq)

/-- Entries with distinct keys have them in every order. -/
theorem Distinct.of_perm (h : Distinct entries) (hperm : more.Perm entries) : Distinct more :=
  hperm.symm.pairwise h fun hne => hne.symm

variable [Ord κ]

/-- Associations in the order of their keys. -/
def sorted (entries : List (κ × α)) : List (κ × α) :=
  entries.mergeSort fun a b => (compare a.1 b.1).isLE

/-- Sorting only moves entries. -/
theorem sorted_perm (entries : List (κ × α)) : (sorted entries).Perm entries :=
  List.mergeSort_perm entries _

/-- What is found does not depend on the order of the associations. -/
theorem get?_eq_of_mem_iff [Std.LawfulEqOrd κ] (h : Distinct entries) (h' : Distinct more)
    (hmem : ∀ e, e ∈ entries ↔ e ∈ more) (k : κ) : get? k entries = get? k more := by
  refine Option.ext fun v => ?_
  rw [get?_eq_some_iff h, get?_eq_some_iff h', hmem]

/-- Sorting entries with distinct keys changes nothing in what is found. -/
theorem get?_sorted [Std.LawfulEqOrd κ] (h : Distinct entries) (k : κ) :
    get? k (sorted entries) = get? k entries :=
  get?_eq_of_mem_iff (h.of_perm (sorted_perm entries)) h (fun _ => (sorted_perm entries).mem_iff) k

section

variable [Std.TransOrd κ] [Std.LawfulEqOrd κ]

/-- Entries in the order of their keys are known by what is found in them. -/
theorem Ordered.ext (h : Ordered entries) (h' : Ordered more)
    (hget : ∀ k, get? k entries = get? k more) : entries = more := by
  have hmem (e : κ × α) : e ∈ entries ↔ e ∈ more := by
    rw [← get?_eq_some_iff h.distinct, ← get?_eq_some_iff h'.distinct, hget]
  have hperm := (List.perm_ext_iff_of_nodup h.distinct.nodup h'.distinct.nodup).mpr hmem
  refine List.Perm.eq_of_pairwise (fun a b _ _ hab hba => ?_) h h' hperm
  rw [Std.OrientedCmp.gt_of_lt hab] at hba
  cases hba

/-- Sorting puts different keys into strictly increasing order. -/
theorem ordered_sorted (h : Distinct entries) : Ordered (sorted entries) := by
  have htotal (a b : κ × α) : ((compare a.1 b.1).isLE || (compare b.1 a.1).isLE) = true := by
    have hswap : compare b.1 a.1 = (compare a.1 b.1).swap := Std.OrientedCmp.eq_swap
    rw [hswap]
    cases compare a.1 b.1 <;> rfl
  have hle : (sorted entries).Pairwise fun a b => (compare a.1 b.1).isLE = true :=
    List.pairwise_mergeSort (fun _ _ _ => Std.TransCmp.isLE_trans) htotal entries
  refine hle.imp₂ (fun a b hle hne => ?_) (h.of_perm (sorted_perm entries))
  cases hcompare : compare a.1 b.1 with
  | lt => rfl
  | eq => exact absurd (Std.compare_eq_iff_eq.mp hcompare) hne
  | gt =>
    rw [hcompare] at hle
    cases hle

end

end Entries

/-- The value that insertions into a map of the given kind leave under a key. -/
def lastInserted (kind : KeyKind) (k : Key) (ops : List (Key × Value)) : Option Value :=
  if k.kind = kind then (ops.reverse.find? fun e => e.1 = k).map (·.2) else none

/-- Whether insertions into a map of the given kind may leave a table of associations. A table may be
arranged anew with each insertion. -/
inductive Table (kind : KeyKind) : (ops stored : List (Key × Value)) → Prop where
  | empty : Table kind [] []
  | insert {ops stored stored' : List (Key × Value)} {k : Key} {v : Value} : Table kind ops stored →
      k.kind = kind → stored'.Perm ((k, v) :: stored.filter fun e => e.1 ≠ k) →
      Table kind (ops ++ [(k, v)]) stored'
  | ignore {ops stored : List (Key × Value)} {k : Key} {v : Value} : Table kind ops stored →
      k.kind ≠ kind → Table kind (ops ++ [(k, v)]) stored

section

variable {kind : KeyKind} {ops ops' stored stored' : List (Key × Value)} {k k' : Key} {v : Value}

/-- What has been inserted last is the last insertion of a key of the right kind. -/
theorem lastInserted_concat (kind : KeyKind) (k k' : Key) (v : Value) (ops : List (Key × Value)) :
    lastInserted kind k (ops ++ [(k', v)]) =
      if k'.kind = kind ∧ k = k' then some v else lastInserted kind k ops := by
  unfold lastInserted
  by_cases hkey : k = k'
  · subst hkey
    by_cases hkind : k.kind = kind <;> simp [hkind]
  · simp [hkey, Ne.symm hkey]

/-- What has been inserted last under a key is found under it in the entries of the map. -/
theorem get?_filled (kind : KeyKind) (ops : List (Key × Value)) (k : Key) :
    Entries.get? k (Value.filled kind ops) = lastInserted kind k ops := by
  induction ops using List.reverseRecOn with
  | nil => simp [Value.filled, Entries.get?, lastInserted]
  | append_singleton ops e ih =>
    obtain ⟨k', v⟩ := e
    rw [Value.filled_concat, lastInserted_concat, Value.setKey]
    split
    · next hkind => simp [Entries.get?_insert, ih, hkind]
    · next hkind => simp [ih, hkind]

/-- A map that is filled is ordered. -/
theorem ordered_filled (kind : KeyKind) (ops : List (Key × Value)) :
    Entries.Ordered (Value.filled kind ops) := by
  induction ops using List.reverseRecOn with
  | nil => exact .nil
  | append_singleton ops e ih =>
    rw [Value.filled_concat, Value.setKey]
    split
    · exact ih.insert _ _
    · exact ih

namespace Table

/-- A table holds the value that has been inserted last under each key, and nothing else. -/
theorem holds (h : Table kind ops stored) : Entries.Distinct stored ∧
    ∀ k v, (k, v) ∈ stored ↔ lastInserted kind k ops = some v := by
  induction h with
  | empty => exact ⟨.nil, fun k v => by simp [lastInserted]⟩
  | @insert ops stored stored' k v _ hkind hperm ih =>
    obtain ⟨hdistinct, hmem⟩ := ih
    have hnew : Entries.Distinct ((k, v) :: stored.filter fun e => e.1 ≠ k) := by
      refine List.pairwise_cons.mpr ⟨fun e he => ?_, hdistinct.filter _⟩
      exact (of_decide_eq_true (List.mem_filter.mp he).2).symm
    refine ⟨hnew.of_perm hperm, fun k' v' => ?_⟩
    rw [hperm.mem_iff, lastInserted_concat]
    by_cases hkey : k' = k
    · subst hkey
      simp only [List.mem_cons, Prod.mk.injEq, true_and, List.mem_filter, ne_eq, not_true_eq_false,
        decide_false, Bool.false_eq_true, and_false, or_false, hkind, and_self, if_true, Option.some.injEq]
      exact eq_comm
    · simp [hkey, hmem]
  | @ignore ops stored k v _ hkind ih =>
    refine ⟨ih.1, fun k' v' => ?_⟩
    rw [ih.2, lastInserted_concat, if_neg fun hboth => hkind hboth.1]

/-- However a table is arranged, sorting it gives the entries that the map keeps. -/
theorem sorted_eq (h : Table kind ops stored) : Entries.sorted stored = Value.filled kind ops := by
  obtain ⟨hdistinct, hmem⟩ := h.holds
  refine (Entries.ordered_sorted hdistinct).ext (ordered_filled kind ops) fun k => ?_
  refine Option.ext fun v => ?_
  rw [Entries.get?_sorted hdistinct, Entries.get?_eq_some_iff hdistinct, hmem, get?_filled]

end Table

/-- The entries of a map are known by what has been inserted last under each key. -/
theorem filled_eq_filled (h : ∀ k, lastInserted kind k ops = lastInserted kind k ops') :
    Value.filled kind ops = Value.filled kind ops' :=
  (ordered_filled kind ops).ext (ordered_filled kind ops') fun k => by
    rw [get?_filled, get?_filled, h]

/-- The keys of a map are those of its kind that have been inserted. -/
theorem mem_keys_filled (kind : KeyKind) (ops : List (Key × Value)) (k : Key) :
    k ∈ Entries.keys (Value.filled kind ops) ↔ k.kind = kind ∧ ∃ v, (k, v) ∈ ops := by
  have hkeys : k ∈ Entries.keys (Value.filled kind ops) ↔ (lastInserted kind k ops).isSome := by
    simp only [Entries.keys, List.mem_map, Prod.exists, exists_and_right, exists_eq_right,
      Option.isSome_iff_exists, ← get?_filled,
      Entries.get?_eq_some_iff (ordered_filled kind ops).distinct]
  rw [hkeys, lastInserted]
  split
  · next hkind => simp [hkind, List.find?_isSome]
  · next hkind => simp [hkind]

end

/-- A range loop over a map gets the keys in order, each with what is found under it. -/
theorem start_sorted {kind : KeyKind} {ops stored : List (Key × Value)} (h : Table kind ops stored) :
    Iteration.start (.map kind (Entries.sorted stored)) =
      .ok (.entries ((Entries.keys (Entries.sorted stored)).map fun k =>
        (k.toValue, ((lastInserted kind k ops).getD .nil).unboxed))) := by
  have hentry : ∀ e ∈ Entries.sorted stored, (e.1.toValue, e.2.unboxed) =
      (e.1.toValue, ((lastInserted kind e.1 ops).getD .nil).unboxed) := by
    intro e he
    have hlast := (h.holds.2 e.1 e.2).mp ((Entries.sorted_perm stored).mem_iff.mp he)
    rw [hlast, Option.getD_some]
  rw [Iteration.start, List.map_congr_left hentry, Entries.keys, List.map_map]
  rfl

/-- Maps are observed in one order. For every kind of keys and every sequence of insertions, sorting what a
table holds afterwards, however it is arranged, gives the entries that the map keeps: their keys increase
strictly, they are the inserted keys of the kind, and each has the value that has been inserted last. The
order of keys is total, only the same keys are equal in it, and equal keys are hashed alike. So tables that
end with the same associations, after whatever insertions, are the same to a range loop, in text, in
diagnostics, in script source and to a namespace. -/
theorem maps_are_canonical (schema : Schema) (kind : KeyKind) :
    (∀ ops stored, Table kind ops stored →
      Entries.sorted stored = Value.filled kind ops ∧
      (Entries.keys (Entries.sorted stored)).Pairwise (fun a b => compare a b = .lt) ∧
      (∀ k, k ∈ Entries.keys (Entries.sorted stored) ↔ k.kind = kind ∧ ∃ v, (k, v) ∈ ops) ∧
      (∀ k, Entries.get? k (Entries.sorted stored) = lastInserted kind k ops) ∧
      Iteration.start (.map kind (Entries.sorted stored)) =
        .ok (.entries ((Entries.keys (Entries.sorted stored)).map fun k =>
          (k.toValue, ((lastInserted kind k ops).getD .nil).unboxed)))) ∧
    (∀ a b c : Key, (compare a b = .eq ↔ a = b) ∧ compare b a = (compare a b).swap ∧
      ((compare a b).isLE → (compare b c).isLE → (compare a c).isLE) ∧
      (compare a b = .eq →
        ∀ (σ : Type) (feed : σ → Key.HashInput → σ) (s : σ), a.hash feed s = b.hash feed s)) ∧
    ∀ ops ops' stored stored', Table kind ops stored → Table kind ops' stored' →
      (∀ k, lastInserted kind k ops = lastInserted kind k ops') →
      let entries := Entries.sorted stored
      let entries' := Entries.sorted stored'
      Iteration.start (.map kind entries) = Iteration.start (.map kind entries') ∧
      (Value.map kind entries).display schema = (Value.map kind entries').display schema ∧
      (Value.map kind entries).debug = (Value.map kind entries').debug ∧
      Builtin.jsEscaper schema [.map kind entries] = Builtin.jsEscaper schema [.map kind entries'] ∧
      ∀ ns, Value.unpackMap kind entries ns = Value.unpackMap kind entries' ns := by
  refine ⟨fun ops stored h => ?_, fun a b c => ?_, fun ops ops' stored stored' h h' hsame => ?_⟩
  · have hordered : Entries.Ordered (Value.filled kind ops) := ordered_filled kind ops
    refine ⟨h.sorted_eq, ?_, ?_, ?_, start_sorted h⟩ <;> rw [h.sorted_eq]
    · exact List.pairwise_map.mpr hordered
    · exact mem_keys_filled kind ops
    · exact get?_filled kind ops
  · exact ⟨Std.compare_eq_iff_eq, Std.OrientedCmp.eq_swap, Std.TransCmp.isLE_trans,
      (Key.compare_eq_eq_iff_hash a b).mp⟩
  · have hentries : Entries.sorted stored = Entries.sorted stored' :=
      calc Entries.sorted stored
        _ = Value.filled kind ops := h.sorted_eq
        _ = Value.filled kind ops' := filled_eq_filled hsame
        _ = Entries.sorted stored' := h'.sorted_eq.symm
    simp only [hentries, implies_true, and_self]

/-- Two maps of integers: neither what has been replaced shows, nor a key of another kind, nor how the
tables are arranged. -/
theorem maps_are_canonical_sample :
    Table .int [(.int 2, .str "b"), (.int 1, .nil), (.text "x", .nil), (.int 1, .str "a")]
      [(.int 1, .str "a"), (.int 2, .str "b")] ∧
    Table .int [(.int 1, .str "a"), (.int 2, .str "b")] [(.int 2, .str "b"), (.int 1, .str "a")] ∧
    (Value.map .int (Entries.sorted [(.int 1, .str "a"), (.int 2, .str "b")])).debug =
      (Value.map .int (Entries.sorted [(.int 2, .str "b"), (.int 1, .str "a")])).debug := by
  have htwo : Table .int [(.int 2, .str "b")] [(.int 2, .str "b")] := .insert .empty rfl (.refl _)
  have hone : Table .int [(.int 1, .str "a")] [(.int 1, .str "a")] := .insert .empty rfl (.refl _)
  have hnil : Table .int [(.int 2, .str "b"), (.int 1, .nil)] [(.int 1, .nil), (.int 2, .str "b")] :=
    .insert htwo rfl (.refl _)
  have htext : Table .int [(.int 2, .str "b"), (.int 1, .nil), (.text "x", .nil)]
      [(.int 1, .nil), (.int 2, .str "b")] := .ignore hnil (by decide)
  have hlong : Table .int [(.int 2, .str "b"), (.int 1, .nil), (.text "x", .nil), (.int 1, .str "a")]
      [(.int 1, .str "a"), (.int 2, .str "b")] := .insert htext rfl (.refl _)
  have hshort : Table .int [(.int 1, .str "a"), (.int 2, .str "b")]
      [(.int 2, .str "b"), (.int 1, .str "a")] := .insert hone rfl (.refl _)
  have hsame (k : Key) :
      lastInserted .int k [(.int 2, .str "b"), (.int 1, .nil), (.text "x", .nil), (.int 1, .str "a")] =
        lastInserted .int k [(.int 1, .str "a"), (.int 2, .str "b")] := by
    by_cases htwo : k = .int 2
    · subst htwo
      rfl
    · by_cases hone : k = .int 1
      · subst hone
        rfl
      · by_cases htext : k = .text "x"
        · subst htext
          rfl
        · simp [lastInserted, Ne.symm htwo, Ne.symm hone, Ne.symm htext]
  have hobserved := (maps_are_canonical .plain .int).2.2 _ _ _ _ hlong hshort hsame
  exact ⟨hlong, hshort, hobserved.2.2.1⟩

end Stencil

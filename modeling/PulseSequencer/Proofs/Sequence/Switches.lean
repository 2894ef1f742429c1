import PulseSequencer.Proofs.Sequence.Equality

/-!
Switches that are put into a sequence one after the other.

Each channel takes the switches that are for it (`foldl_switched`), and their order does not show in
what the sequence looks like (`alike_foldl_of_perm`).  Where it is known before an edit which
switches it adds, and the edit is checked against nothing but the number of channels, the same goes
for a run of such edits (`foldlM_eq_ok_switched`, `exists_foldlM_of_perm`).
-/

namespace PulseSequencer
namespace Sequence

/-- The sequence with one more switch on a channel. -/
def switched (s : Sequence) (e : Nat × Binary64) : Sequence :=
  { s with channels := s.channels.modify e.1 (·.addSwitch e.2) }

theorem nchannels_switched (s : Sequence) (e : Nat × Binary64) :
    (s.switched e).nchannels = s.nchannels := by
  simp [switched, nchannels]

/-- The times among numbered switches that are for channel `i`. -/
def timesOn (i : Nat) (edges : List (Nat × Binary64)) : List Binary64 :=
  edges.filterMap fun e => if e.1 = i then some e.2 else none

theorem mem_of_mem_timesOn {i : Nat} {edges : List (Nat × Binary64)} {t : Binary64}
    (h : t ∈ timesOn i edges) : (i, t) ∈ edges := by
  obtain ⟨e, he, hit⟩ := List.mem_filterMap.1 h
  by_cases hi : e.1 = i
  · simp only [hi, if_true, Option.some.injEq] at hit
    rw [← hi, ← hit]
    exact he
  · simp [hi] at hit

theorem foldl_switched (edges : List (Nat × Binary64)) (s : Sequence) :
    (edges.foldl switched s).nchannels = s.nchannels ∧
    (edges.foldl switched s).declaredStart = s.declaredStart ∧
    (edges.foldl switched s).declaredStop = s.declaredStop ∧
    ∀ i, (edges.foldl switched s).channels[i]? =
      s.channels[i]?.map fun c => (timesOn i edges).foldl Channel.addSwitch c := by
  induction edges generalizing s with
  | nil => exact ⟨rfl, rfl, rfl, fun i => by simp [timesOn]⟩
  | cons e edges ih =>
    obtain ⟨hn, hstart, hstop, hchannels⟩ := ih (s.switched e)
    refine ⟨hn.trans (nchannels_switched s e), hstart, hstop, fun i => ?_⟩
    rw [List.foldl_cons, hchannels i, switched, List.getElem?_modify, Option.map_eq_map,
      Option.map_map]
    congr 1
    funext c
    by_cases hi : e.1 = i
    · simp [timesOn, hi]
    · simp [timesOn, hi]

/-- **The order of switches does not matter** to what the sequence looks like. -/
theorem alike_foldl_of_perm {s : Sequence} (hs : s.WellFormed)
    {edges edges' : List (Nat × Binary64)}
    (hperm : edges.Perm edges') (hfin : ∀ e ∈ edges, e.2.isFinite = true) :
    Alike (edges.foldl switched s) (edges'.foldl switched s) := by
  obtain ⟨hn, hstart, hstop, hch⟩ := foldl_switched edges s
  obtain ⟨hn', hstart', hstop', hch'⟩ := foldl_switched edges' s
  refine ⟨hstart.trans hstart'.symm, hstop.trans hstop'.symm, List.ext_getElem? fun i => ?_⟩
  rw [List.getElem?_map, List.getElem?_map, hch, hch']
  cases hc : s.channels[i]? with
  | none => rfl
  | some c =>
    have hnum : ∀ t ∈ timesOn i edges, t.isNaN = false := fun t ht =>
      Binary64.isNaN_of_isFinite (hfin _ (mem_of_mem_timesOn ht))
    have hview := Channel.view_foldl_of_perm (hperm.filterMap _) hnum
      (hs.channels c (List.mem_of_getElem? hc)).ordered
    exact congrArg some hview

/-! ## Edits with known switches -/

section
variable {α : Type} {f : Sequence → α → Except ValidationError Sequence}
  {acceptable : Nat → α → Prop} {edges : α → List (Nat × Binary64)} {l : List α}
  (hf : ∀ a ∈ l, ∀ s s', f s a = .ok s' ↔
    acceptable s.nchannels a ∧ s' = (edges a).foldl switched s)
include hf

/-- **A run of edits with known switches** is accepted if each of them is, and adds the switches of
all. -/
theorem foldlM_eq_ok_switched {s s' : Sequence} :
    l.foldlM f s = .ok s' ↔
      (∀ a ∈ l, acceptable s.nchannels a) ∧ s' = (l.flatMap edges).foldl switched s := by
  induction l generalizing s with
  | nil => simp [Except.pure_eq_ok]
  | cons a l ih =>
    obtain ⟨ha, hl⟩ := List.forall_mem_cons.1 hf
    have hn : ((edges a).foldl switched s).nchannels = s.nchannels := (foldl_switched (edges a) s).1
    rw [List.foldlM_cons, Except.bind_eq_ok]
    simp only [ha, ih hl, List.forall_mem_cons, List.flatMap_cons, List.foldl_append]
    constructor
    · rintro ⟨_, ⟨hacc, rfl⟩, hall, rfl⟩
      exact ⟨⟨hacc, hn ▸ hall⟩, rfl⟩
    · rintro ⟨⟨hacc, hall⟩, rfl⟩
      exact ⟨_, ⟨hacc, rfl⟩, hn.symm ▸ hall, rfl⟩

/-- **The order of such a run** shows neither in whether it is accepted nor in the sequence. -/
theorem exists_foldlM_of_perm
    (hfin : ∀ n, ∀ a ∈ l, acceptable n a → ∀ e ∈ edges a, e.2.isFinite = true) {l' : List α}
    (hperm : l.Perm l') {s s' : Sequence} (hs : s.WellFormed) (h : l.foldlM f s = .ok s') :
    ∃ s'', l'.foldlM f s = .ok s'' ∧ Alike s' s'' := by
  obtain ⟨hacc, rfl⟩ := (foldlM_eq_ok_switched hf).1 h
  have hf' : ∀ a ∈ l', ∀ s s', f s a = .ok s' ↔
      acceptable s.nchannels a ∧ s' = (edges a).foldl switched s :=
    fun a ha => hf a (hperm.mem_iff.2 ha)
  refine ⟨_, (foldlM_eq_ok_switched hf').2 ⟨fun a ha => hacc a (hperm.mem_iff.2 ha), rfl⟩,
    alike_foldl_of_perm hs (hperm.flatMap_right edges) fun e he => ?_⟩
  obtain ⟨a, ha, hea⟩ := List.mem_flatMap.1 he
  exact hfin _ a ha (hacc a ha) e hea

end

end Sequence
end PulseSequencer

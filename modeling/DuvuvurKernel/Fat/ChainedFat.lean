import DuvuvurKernel.Fat.Isolation
import Mathlib.Data.Set.Pairwise.Basic

/-!
# All chains of the FAT

`ExtendCluster` and `AllocateClusterChain` on a FAT whose used entries are those of chains that end
and have no cluster in common (`Chained`). Both take the free clusters with the lowest numbers, in the
order of their numbers (`LowestFree`), change no other entry than theirs and that of the old end, and keep the chains
apart.

**Result** (`allocation_keeps_chains`): so it is for any number of clusters, from any cluster of a chain, as long as
there are free clusters enough. `AllocateClusterChain` takes a cluster even when it is asked for none, so it needs a
free one then as well: on a full FAT it searches past its end (`not_allocates_full`).
-/

namespace DuvuvurKernel.Fat

open Lib.Chains

variable (g : BPB)

/-- The entries in use are those of the chains, which end and have no cluster in common. -/
structure Chained (fat : ℕ → ℕ) (chains : Set (List ℕ)) : Prop where
  chain : ∀ cs ∈ chains, ∃ first, IsChain g fat first cs
  disjoint : chains.Pairwise List.Disjoint
  used : ∀ x, 2 ≤ x → x < g.fatEntries → fat x ≠ 0 → ∃ cs ∈ chains, x ∈ cs

/-- The `n` free clusters with the lowest numbers, in increasing order. -/
structure LowestFree (fat : ℕ → ℕ) (n : ℕ) (ns : List ℕ) : Prop where
  length : ns.length = n
  increasing : ns.Pairwise (· < ·)
  free : ∀ x ∈ ns, (2 ≤ x ∧ x < g.fatEntries) ∧ fat x = 0
  lowest : ∀ x ∈ ns, ∀ y, 2 ≤ y → y < g.fatEntries → fat y = 0 → y ∉ ns → x < y

/-- `ExtendCluster` from a cluster `c` of the chain `cs` on, and what it does to all chains. -/
def ExtendsChain (v : Volume) (chains : Set (List ℕ)) (cs : List ℕ) (c n : ℕ) : Prop :=
  ∃ last ns v', extendCluster g v c n = some (last, v') ∧ LowestFree g v.fat n ns ∧
    (cs ++ ns).getLast? = some last ∧ (∀ x, cs.getLast? ≠ some x → x ∉ ns → v'.fat x = v.fat x) ∧
    v'.data = v.data ∧ Chained g v'.fat (insert (cs ++ ns) (chains \ {cs}))

/-- `AllocateClusterChain`, and what it does to all chains. -/
def AllocatesChain (v : Volume) (chains : Set (List ℕ)) (n : ℕ) : Prop :=
  ∃ first ns v', allocateClusterChain g v n = some (first, v') ∧ LowestFree g v.fat (max n 1) ns ∧
    ns.head? = some first ∧ (∀ x, x ∉ ns → v'.fat x = v.fat x) ∧
    v'.data = v.data ∧ Chained g v'.fat (insert ns chains)

variable {g} {v : Volume} {fat fat' : ℕ → ℕ} {chains : Set (List ℕ)} {cs : List ℕ} {c n k first : ℕ}

/-! ### The lowest free clusters -/

theorem pairwise_free : (free g fat).Pairwise (· < ·) := by
  have hrange : (List.range' 2 (g.fatEntries - 2)).Pairwise (· < ·) := List.pairwise_lt_range'
  exact hrange.filter _

/-- They are those that the allocation takes. -/
theorem lowestFree_take (hn : n ≤ (free g fat).length) : LowestFree g fat n ((free g fat).take n) where
  length := List.length_take_of_le hn
  increasing := pairwise_free.sublist (List.take_sublist _ _)
  free := fun x hx => mem_free.mp (List.mem_of_mem_take hx)
  lowest := by
    intro x hx y hy hlt hzero hnot
    have hmem : y ∈ (Fat.free g fat).take n ++ (Fat.free g fat).drop n := by
      rw [List.take_append_drop]
      exact mem_free.mpr ⟨⟨hy, hlt⟩, hzero⟩
    have hdrop := (List.mem_append.mp hmem).resolve_left hnot
    have hsorted : ((Fat.free g fat).take n ++ (Fat.free g fat).drop n).Pairwise (· < ·) := by
      rw [List.take_append_drop]
      exact pairwise_free
    exact (List.pairwise_append.mp hsorted).2.2 x hx y hdrop

/-! ### The chains -/

theorem Chained.ne_nil (h : Chained g fat chains) (hcs : cs ∈ chains) : cs ≠ [] := by
  obtain ⟨first, hchain⟩ := h.chain cs hcs
  exact hchain.linked.ne_nil

/-- A chain of the FAT, or a new one, that goes on with free clusters stays apart from the others. -/
theorem Chained.extends (h : Chained g fat chains) (hcs : cs ∈ chains ∨ cs = [])
    (hext : Extends g first cs k fat fat') : Chained g fat' (insert (cs ++ (free g fat).take k) (chains \ {cs})) := by
  have hapart : ∀ ds ∈ chains \ {cs}, ∀ x ∈ ds, x ∉ cs ++ (free g fat).take k := by
    rintro ds ⟨hds, hne⟩ x hx hmem
    rcases List.mem_append.mp hmem with hmem | hmem
    · rcases hcs with hcs | rfl
      · exact h.disjoint hds hcs hne hx hmem
      · cases hmem
    · obtain ⟨first', hchain⟩ := h.chain ds hds
      exact hchain.notMem_free hx (List.mem_of_mem_take hmem)
  refine ⟨?_, ?_, ?_⟩
  · rintro ds (rfl | hds)
    · exact ⟨first, hext.chain⟩
    · obtain ⟨first', hchain⟩ := h.chain ds hds.1
      exact ⟨first', hchain.congr_fat fun x hx => hext.other x (hapart ds hds x hx)⟩
  · refine (h.disjoint.mono fun ds hds => hds.1).insert fun ds hds _ => ?_
    have hdisj : ds.Disjoint (cs ++ (free g fat).take k) := fun x hx hx' => hapart ds hds x hx hx'
    exact ⟨hdisj.symm, hdisj⟩
  · intro x hx hlt hne
    by_cases hmem : x ∈ cs ++ (free g fat).take k
    · exact ⟨_, Set.mem_insert _ _, hmem⟩
    · rw [hext.other x hmem] at hne
      obtain ⟨ds, hds, hxds⟩ := h.used x hx hlt hne
      refine ⟨ds, Set.mem_insert_of_mem _ ⟨hds, ?_⟩, hxds⟩
      rintro rfl
      exact hmem (List.mem_append_left _ hxds)

/-! ### The operations -/

theorem Chained.extendsChain (hg : g.WellFormed) (h : Chained g v.fat chains) (hcs : cs ∈ chains) (hc : c ∈ cs)
    (hn : n ≤ (free g v.fat).length) : ExtendsChain g v chains cs c n := by
  obtain ⟨first, hchain⟩ := h.chain cs hcs
  obtain ⟨pre, ds, hds, hlinked⟩ := hchain.linked.of_mem hc
  have hsuffix : IsChain g v.fat c ds := ⟨hlinked, fun x hx => hchain.lt x (hds ▸ List.mem_append_right _ hx)⟩
  have hlast : ds.getLast hlinked.ne_nil = cs.getLast hchain.linked.ne_nil :=
    hlinked.getLast_eq_of_mem hchain.linked hlinked.mem_self hc
  have heq := (extendCluster_eq hsuffix n).trans (if_pos hn)
  obtain ⟨last, v', hextend, hat, hext, hdata⟩ := extendCluster_spec hg hchain hc hn
  have hlen : ((free g v.fat).take n).length = n := List.length_take_of_le hn
  have hv' := (Prod.mk.inj (Option.some.inj (hextend.symm.trans heq))).2
  refine ⟨last, _, v', hextend, lowestFree_take hn, ?_, fun x hx hnot => ?_, hdata, h.extends (.inl hcs) hext⟩
  · rw [List.getLast?_eq_getElem?, List.length_append, hlen]
    exact hat
  · rw [hv']
    refine chainUp_of_notMem fun hmem => ?_
    rcases List.mem_cons.mp hmem with rfl | hmem
    · rw [hlast] at hx
      exact hx (List.getLast?_eq_some_getLast _)
    · exact hnot hmem

theorem Chained.allocatesChain (hg : g.WellFormed) (h : Chained g v.fat chains) (hn : max n 1 ≤ (free g v.fat).length) :
    AllocatesChain g v chains n := by
  cases hf : free g v.fat with
  | nil =>
    rw [hf, List.length_nil] at hn
    omega
  | cons f fs =>
    obtain ⟨v', halloc, hext, hdata⟩ := allocateClusterChain_spec (n := n) hg hf (by omega)
    rw [max_comm] at hext
    have hsame : chains \ {[]} = chains := Set.sdiff_singleton_eq_self fun hnil => h.ne_nil hnil rfl
    have hkeeps := h.extends (.inr rfl) hext
    rw [hsame, List.nil_append] at hkeeps
    refine ⟨f, _, v', halloc, lowestFree_take hn, ?_, fun x hx => hext.other x hx, hdata, hkeeps⟩
    rw [hf, show max n 1 = max n 1 - 1 + 1 by omega, List.take_succ_cons]
    rfl

/-- **Chains are allocated** from the lowest free clusters in increasing order, behind the end of any chain or as a
new one, and all chains stay apart. -/
theorem allocation_keeps_chains (hg : g.WellFormed) (h : Chained g v.fat chains) :
    (∀ cs ∈ chains, ∀ c ∈ cs, ∀ n ≤ (free g v.fat).length, ExtendsChain g v chains cs c n) ∧
      ∀ n, max n 1 ≤ (free g v.fat).length → AllocatesChain g v chains n :=
  ⟨fun _ hcs _ hc _ hn => h.extendsChain hg hcs hc hn, fun _ hn => h.allocatesChain hg hn⟩

theorem chained_emptyVolume : Chained smallBPB emptyVolume.fat {[2]} where
  chain := by
    rintro cs rfl
    exact ⟨2, isChain_singleton (by decide) (by decide)⟩
  disjoint := Set.pairwise_singleton _ _
  used := by
    intro x _ _ hne
    by_cases hx : x = 2
    · exact ⟨[2], rfl, by simp [hx]⟩
    · exact absurd (if_neg hx) hne

/-- The root directory of an empty volume gets three clusters more, or a new chain is made. -/
theorem allocation_keeps_chains_empty : ExtendsChain smallBPB emptyVolume {[2]} [2] 2 3 ∧
    AllocatesChain smallBPB emptyVolume {[2]} 0 := by
  obtain ⟨hextend, halloc⟩ := allocation_keeps_chains wellFormed_smallBPB chained_emptyVolume
  exact ⟨hextend [2] rfl 2 (by simp) 3 (by decide), halloc 0 (by decide)⟩

/-- A volume without a free cluster. -/
def fullVolume : Volume where
  fat := fun _ => kEndOfClusterchain
  data := fun _ _ => 0

/-- A chain of one cluster is not to be had on a full volume, even where none is asked for. -/
theorem not_allocates_full : smallBPB.WellFormed ∧
    Chained smallBPB fullVolume.fat {cs | ∃ x, (2 ≤ x ∧ x < 8) ∧ cs = [x]} ∧
    0 ≤ (free smallBPB fullVolume.fat).length ∧
    ¬ AllocatesChain smallBPB fullVolume {cs | ∃ x, (2 ≤ x ∧ x < 8) ∧ cs = [x]} 0 := by
  refine ⟨wellFormed_smallBPB, ⟨?_, ?_, ?_⟩, Nat.zero_le _, ?_⟩
  · rintro cs ⟨x, hx, rfl⟩
    exact ⟨x, isChain_singleton rfl hx⟩
  · rintro cs ⟨x, -, rfl⟩ ds ⟨y, -, rfl⟩ hne
    simpa [eq_comm] using hne
  · intro x hx hlt _
    exact ⟨[x], ⟨x, ⟨hx, hlt⟩, rfl⟩, by simp⟩
  · rintro ⟨first, ns, v', halloc, -⟩
    have hnone : allocateClusterChain smallBPB fullVolume 0 = none := by decide
    rw [hnone] at halloc
    cases halloc

end DuvuvurKernel.Fat

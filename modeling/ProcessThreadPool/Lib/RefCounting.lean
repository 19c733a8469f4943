import Mathlib.Data.Multiset.Count
import Mathlib.Data.BitVec
import Mathlib.Logic.Function.Basic

/-!
# Reference counts

Objects of one kind that are shared through counted references. A ledger has the counters,
which are machine words, next to what they are meant to count: the references that are
held, the objects that are just being made and those that are being disposed of, and how
often each object was taken into use and given back. Releasing a reference disposes of the
object when the counter, read as a signed number before it is lowered, is at most one.

As long as the references held fit into the counter, an object is in use from the time it
is taken until its last reference is released, and it is given back once.
-/

namespace ProcessThreadPool

namespace RefCounting

/-- The objects of one kind. An object occurs in `refs` once for each reference to it. -/
structure Ledger (α : Type*) (w : ℕ) where
  counter : α → BitVec w
  refs : Multiset α
  begun : Multiset α
  ended : Multiset α
  taken : Multiset α
  returned : Multiset α

namespace Ledger

variable {α : Type*} [DecidableEq α] {w : ℕ}

/-- In how many ways an object is in use: referred to, being made, being disposed of. -/
def inUse (L : Ledger α w) (a : α) : ℕ :=
  min 1 (L.refs.count a) + L.begun.count a + L.ended.count a

/-- An object is taken into use, with the counter at one. -/
def take (L : Ledger α w) (a : α) : Ledger α w :=
  { L with
    counter := Function.update L.counter a 1
    begun := a ::ₘ L.begun
    taken := a ::ₘ L.taken }

/-- The object is made, and its first reference handed out. -/
def publish (L : Ledger α w) (a : α) : Ledger α w :=
  { L with begun := L.begun.erase a, refs := a ::ₘ L.refs }

/-- Making the object has failed. -/
def abandon (L : Ledger α w) (a : α) : Ledger α w :=
  { L with begun := L.begun.erase a, ended := a ::ₘ L.ended }

/-- One more reference. -/
def retain (L : Ledger α w) (a : α) : Ledger α w :=
  { L with counter := Function.update L.counter a (L.counter a + 1), refs := a ::ₘ L.refs }

/-- One reference less. Whoever finds the counter at one disposes of the object. -/
def release (L : Ledger α w) (a : α) : Ledger α w :=
  { L with
    counter := Function.update L.counter a (L.counter a - 1)
    refs := L.refs.erase a
    ended := if 1 < (L.counter a).toInt then L.ended else a ::ₘ L.ended }

/-- The object is given back. -/
def dispose (L : Ledger α w) (a : α) : Ledger α w :=
  { L with ended := L.ended.erase a, returned := a ::ₘ L.returned }

/-- Every object that is referred to, being made or being disposed of was taken once more
often than it was given back, every other as often; and no object is disposed of while
there is a reference to it. -/
structure Exact (L : Ledger α w) : Prop where
  once : ∀ a, L.taken.count a =
    L.returned.count a + if a ∈ L.refs ∨ a ∈ L.begun ∨ a ∈ L.ended then 1 else 0
  last : ∀ a ∈ L.ended, a ∉ L.refs

/-- The invariant: the counters count the references. -/
structure Sound (L : Ledger α w) : Prop where
  taken : ∀ a, L.taken.count a = L.returned.count a + L.inUse a
  single : ∀ a, L.inUse a ≤ 1
  counted : ∀ a ∈ L.refs, L.counter a = BitVec.ofNat w (L.refs.count a)
  begun : ∀ a ∈ L.begun, L.counter a = 1

variable {L : Ledger α w} {a b : α}

theorem inUse_of_mem_refs (h : a ∈ L.refs) :
    L.inUse a = 1 + L.begun.count a + L.ended.count a := by
  have hpos := Multiset.count_pos.mpr h
  rw [inUse, Nat.min_eq_left hpos]

theorem inUse_of_notMem_refs (h : a ∉ L.refs) :
    L.inUse a = L.begun.count a + L.ended.count a := by
  rw [inUse, Multiset.count_eq_zero.mpr h, Nat.min_zero, Nat.zero_add]

theorem Sound.notMem_of_refs (h : L.Sound) (ha : a ∈ L.refs) :
    a ∉ L.begun ∧ a ∉ L.ended := by
  have hsingle := h.single a
  rw [inUse_of_mem_refs ha] at hsingle
  rw [← Multiset.count_eq_zero, ← Multiset.count_eq_zero]
  omega

theorem Sound.exact (h : L.Sound) : L.Exact where
  once := by
    intro a
    have hsingle := h.single a
    rw [h.taken a, Nat.add_right_inj]
    by_cases hrefs : a ∈ L.refs
    · rw [inUse_of_mem_refs hrefs] at hsingle ⊢
      rw [if_pos (Or.inl hrefs)]
      omega
    · rw [inUse_of_notMem_refs hrefs] at hsingle ⊢
      split_ifs with huse
      · have hpos := huse.resolve_left hrefs
        rw [← Multiset.count_pos, ← Multiset.count_pos] at hpos
        omega
      · rw [not_or, not_or, ← Multiset.count_eq_zero (s := L.begun),
          ← Multiset.count_eq_zero (s := L.ended)] at huse
        omega
  last := fun a hended hrefs => (h.notMem_of_refs hrefs).2 hended

/-! ## What each operation does to the objects in use -/

theorem inUse_take (L : Ledger α w) (a b : α) :
    (L.take a).inUse b = L.inUse b + if b = a then 1 else 0 := by
  simp only [inUse, take, Multiset.count_cons]
  omega

theorem inUse_publish (h : L.Sound) (ha : a ∈ L.begun) (b : α) :
    (L.publish a).inUse b = L.inUse b := by
  simp only [inUse, publish, Multiset.count_cons]
  by_cases hb : b = a
  · subst hb
    have hrefs : b ∉ L.refs := fun hmem => (h.notMem_of_refs hmem).1 ha
    have hpos := Multiset.count_pos.mpr ha
    rw [Multiset.count_erase_self, Multiset.count_eq_zero.mpr hrefs, if_pos rfl]
    omega
  · rw [Multiset.count_erase_of_ne hb, if_neg hb, Nat.add_zero]

/-- Erasing an element and counting it separately counts what was there. -/
theorem count_erase_add {m : Multiset α} (ha : a ∈ m) (b : α) :
    (m.erase a).count b + (if b = a then 1 else 0) = m.count b := by
  rw [← Multiset.count_cons, Multiset.cons_erase ha]

theorem inUse_abandon (ha : a ∈ L.begun) (b : α) : (L.abandon a).inUse b = L.inUse b := by
  have hcount := count_erase_add ha b
  simp only [inUse, abandon, Multiset.count_cons]
  omega

theorem inUse_retain (ha : a ∈ L.refs) (b : α) : (L.retain a).inUse b = L.inUse b := by
  have hpos := Multiset.count_pos.mpr ha
  simp only [inUse, retain, Multiset.count_cons]
  by_cases hb : b = a
  · subst hb
    rw [if_pos rfl]
    omega
  · rw [if_neg hb, Nat.add_zero]

theorem inUse_dispose (ha : a ∈ L.ended) (b : α) :
    (L.dispose a).inUse b + (if b = a then 1 else 0) = L.inUse b := by
  have hcount := count_erase_add ha b
  simp only [inUse, dispose]
  omega

/-- The counter tells whether the reference is the last one. -/
theorem Sound.last_iff (h : L.Sound) (ha : a ∈ L.refs)
    (hfits : L.refs.count a < 2 ^ (w - 1)) :
    1 < (L.counter a).toInt ↔ 1 < L.refs.count a := by
  have hsmall : 2 * (BitVec.ofNat w (L.refs.count a)).toNat < 2 ^ w ∧
      (BitVec.ofNat w (L.refs.count a)).toNat = L.refs.count a := by
    have hpos := Multiset.count_pos.mpr ha
    rcases w with - | w
    · simp only [Nat.zero_sub, Nat.pow_zero] at hfits
      omega
    · rw [Nat.add_sub_cancel] at hfits
      have hlt : L.refs.count a < 2 ^ (w + 1) := by
        rw [Nat.pow_succ]
        omega
      rw [BitVec.toNat_ofNat, Nat.mod_eq_of_lt hlt, Nat.pow_succ]
      omega
  rw [h.counted a ha, BitVec.toInt_eq_toNat_of_lt hsmall.1, hsmall.2]
  omega

theorem inUse_release (h : L.Sound) (ha : a ∈ L.refs)
    (hfits : L.refs.count a < 2 ^ (w - 1)) (b : α) : (L.release a).inUse b = L.inUse b := by
  have hlast := h.last_iff ha hfits
  simp only [inUse, release]
  by_cases hb : b = a
  · subst hb
    have hpos := Multiset.count_pos.mpr ha
    rw [Multiset.count_erase_self]
    split_ifs with hmore
    · have hrest := hlast.mp hmore
      omega
    · have hnone : ¬1 < L.refs.count b := fun hrest => hmore (hlast.mpr hrest)
      rw [Multiset.count_cons_self]
      omega
  · rw [Multiset.count_erase_of_ne hb]
    split_ifs
    · rfl
    · rw [Multiset.count_cons_of_ne hb]

/-! ## The operations keep the invariant -/

/-- An operation that neither takes nor returns an object keeps the count of its uses. -/
theorem Sound.of_inUse {M : Ledger α w} (h : L.Sound) (htaken : M.taken = L.taken)
    (hreturned : M.returned = L.returned) (huse : ∀ b, M.inUse b = L.inUse b)
    (hcounted : ∀ b ∈ M.refs, M.counter b = BitVec.ofNat w (M.refs.count b))
    (hbegun : ∀ b ∈ M.begun, M.counter b = 1) : M.Sound where
  taken := fun b => by rw [htaken, hreturned, huse, h.taken]
  single := fun b => by rw [huse]; exact h.single b
  counted := hcounted
  begun := hbegun

theorem Sound.take (h : L.Sound) (ha : L.inUse a = 0) : (L.take a).Sound := by
  have hfree : a ∉ L.refs := fun hmem => by
    rw [inUse_of_mem_refs hmem] at ha
    omega
  constructor
  · intro b
    rw [inUse_take]
    simp only [Ledger.take, Multiset.count_cons, h.taken b]
    omega
  · intro b
    rw [inUse_take]
    by_cases hb : b = a
    · rw [hb, ha, if_pos rfl]
    · rw [if_neg hb]
      exact h.single b
  · intro b hb
    have hne : b ≠ a := fun heq => hfree (heq ▸ hb)
    simp only [Ledger.take, Function.update_of_ne hne]
    exact h.counted b hb
  · intro b hb
    by_cases hba : b = a
    · simp only [Ledger.take, hba, Function.update_self]
    · simp only [Ledger.take, Function.update_of_ne hba]
      exact h.begun b ((Multiset.mem_cons.mp hb).resolve_left hba)

theorem Sound.publish (h : L.Sound) (ha : a ∈ L.begun) : (L.publish a).Sound := by
  refine h.of_inUse rfl rfl (inUse_publish h ha) (fun b hb => ?_) fun b hb => ?_
  · by_cases hba : b = a
    · have hnone : a ∉ L.refs := fun hmem => (h.notMem_of_refs hmem).1 ha
      rw [hba, Ledger.publish, Multiset.count_cons_self, Multiset.count_eq_zero.mpr hnone]
      exact h.begun a ha
    · rw [Ledger.publish, Multiset.count_cons_of_ne hba]
      exact h.counted b ((Multiset.mem_cons.mp hb).resolve_left hba)
  · exact h.begun b (Multiset.mem_of_mem_erase hb)

theorem Sound.abandon (h : L.Sound) (ha : a ∈ L.begun) : (L.abandon a).Sound :=
  h.of_inUse rfl rfl (inUse_abandon ha) h.counted
    fun b hb => h.begun b (Multiset.mem_of_mem_erase hb)

theorem Sound.retain (h : L.Sound) (ha : a ∈ L.refs) : (L.retain a).Sound := by
  refine h.of_inUse rfl rfl (inUse_retain ha) (fun b hb => ?_) fun b hb => ?_
  · by_cases hba : b = a
    · simp only [Ledger.retain, hba, Function.update_self, Multiset.count_cons_self]
      rw [h.counted a ha]
      exact (BitVec.ofNat_add _ 1).symm
    · simp only [Ledger.retain, Function.update_of_ne hba, Multiset.count_cons_of_ne hba]
      exact h.counted b ((Multiset.mem_cons.mp hb).resolve_left hba)
  · have hne : b ≠ a := fun heq => (h.notMem_of_refs ha).1 (heq ▸ hb)
    simp only [Ledger.retain, Function.update_of_ne hne]
    exact h.begun b hb

theorem Sound.release (h : L.Sound) (ha : a ∈ L.refs)
    (hfits : L.refs.count a < 2 ^ (w - 1)) : (L.release a).Sound := by
  refine h.of_inUse rfl rfl (inUse_release h ha hfits) (fun b hb => ?_) fun b hb => ?_
  · by_cases hba : b = a
    · obtain ⟨n, hn⟩ := Nat.exists_eq_succ_of_ne_zero (Multiset.count_pos.mpr ha).ne'
      simp only [Ledger.release, hba, Function.update_self, Multiset.count_erase_self]
      rw [h.counted a ha, hn, Nat.succ_eq_add_one, BitVec.ofNat_add, Nat.add_sub_cancel]
      exact BitVec.add_sub_cancel _ _
    · simp only [Ledger.release, Function.update_of_ne hba, Multiset.count_erase_of_ne hba]
      exact h.counted b ((Multiset.mem_erase_of_ne hba).mp hb)
  · have hne : b ≠ a := fun heq => (h.notMem_of_refs ha).1 (heq ▸ hb)
    simp only [Ledger.release, Function.update_of_ne hne]
    exact h.begun b hb

theorem Sound.dispose (h : L.Sound) (ha : a ∈ L.ended) : (L.dispose a).Sound := by
  have huse := inUse_dispose ha
  constructor
  · intro b
    have htaken := h.taken b
    rw [← huse b] at htaken
    simp only [Ledger.dispose, Multiset.count_cons] at htaken ⊢
    omega
  · intro b
    have hsingle := h.single b
    have hb := huse b
    omega
  · exact h.counted
  · exact h.begun

end Ledger

end RefCounting

end ProcessThreadPool

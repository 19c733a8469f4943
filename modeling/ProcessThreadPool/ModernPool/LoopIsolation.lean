import ProcessThreadPool.ModernPool.LoopInit

/-!
# Which pools are cleaned up properly

The invariant says where the descriptors of the existing pools are: all of them are open,
the record has those of the pool it belongs to, and whatever else it has as a number is no
descriptor of a pool, unless it is the zero that `memset` left.
-/

namespace ProcessThreadPool

namespace ModernPool

namespace EventLoop

open DescriptorTable

/-- The descriptors of the pools that exist. -/
structure Program.Sharing (s : Program) : Prop where
  owned : ∀ n p r, s.fds.lookup n = some (.loop p r) → p ∈ s.live
  unique : ∀ n m p r, s.fds.lookup n = some (.loop p r) →
    s.fds.lookup m = some (.loop p r) → n = m
  held : ∀ p ∈ s.live, ∀ r, (p, r) ∈ s.opened ∧ ∃ n, s.fds.lookup n = some (.loop p r)
  fresh : ∀ p r, (p, r) ∈ s.opened → p < s.pools
  closed : ∀ p r, some (.loop p r) ∈ s.closes → p < s.pools
  nodup : s.live.Nodup
  current : ∀ p ∈ s.live, s.gEventLoop.pool = some p →
    ∀ r, s.fds.lookup (s.gEventLoop.number r) = some (.loop p r)
  stale : ∀ r p r', s.fds.lookup (s.gEventLoop.number r) = some (.loop p r') →
    s.gEventLoop.pool = some p ∨ s.gEventLoop.number r = 0
  isolated : Isolated s

/-! ## The calls on pools -/

section Calls

variable {s t : Program} {p : ℕ}

theorem Program.Sharing.pools_notMem (h : s.Sharing) : s.pools ∉ s.live := fun hlive =>
  Nat.lt_irrefl _ (h.fresh _ _ (h.held _ hlive .epoll).1)

theorem Program.Sharing.count_pools (h : s.Sharing) (r : Role) :
    s.closes.count (some (.loop s.pools r)) = 0 :=
  List.count_eq_zero.mpr fun hmem => Nat.lt_irrefl _ (h.closed _ _ hmem)

theorem notMem_map_loop (rs : List Role) :
    some Owner.other ∉ rs.map fun r => some (Owner.loop p r) := by
  intro hmem
  obtain ⟨r, -, heq⟩ := List.mem_map.mp hmem
  cases heq

theorem mem_opened_append {q : ℕ} {r : Role} {opened : List (ℕ × Role)} {rs : List Role} :
    (q, r) ∈ opened ++ rs.map (fun r => (p, r)) ↔ (q, r) ∈ opened ∨ q = p ∧ r ∈ rs := by
  rw [List.mem_append]
  refine or_congr_right ⟨fun hmem => ?_, fun ⟨hq, hr⟩ => ?_⟩
  · obtain ⟨r', hr', heq⟩ := List.mem_map.mp hmem
    cases heq
    exact ⟨rfl, hr'⟩
  · subst hq
    exact List.mem_map.mpr ⟨r, hr, rfl⟩

/-- With the descriptors of one more pool, all that is opened is of pools with a number up to
its own. -/
theorem Program.Sharing.lt_of_mem_opened (h : s.Sharing) {rs : List Role} {q : ℕ} {r : Role}
    (hmem : (q, r) ∈ s.opened ++ rs.map (fun r => (s.pools, r))) : q < s.pools + 1 := by
  rcases mem_opened_append.mp hmem with hold | ⟨rfl, -⟩
  · exact Nat.lt_succ_of_lt (h.fresh q r hold)
  · exact Nat.lt_succ_self _

/-- A failed initialisation leaves the other pools as they were. -/
theorem Undone.sharing (h : s.Sharing)
    (ht : Undone { s with pools := s.pools + 1 } s.pools t) : t.Sharing := by
  obtain ⟨rs, rs', hnodup, hperm, hopened, hcloses⟩ := ht.tried
  have hlookup : ∀ n, t.fds.lookup n = s.fds.lookup n := ht.lookup
  have hlive : t.live = s.live := ht.live
  have hpools : t.pools = s.pools + 1 := ht.pools
  constructor
  · intro n q r hn
    rw [hlookup] at hn
    rw [hlive]
    exact h.owned n q r hn
  · intro n m q r hn hm
    rw [hlookup] at hn hm
    exact h.unique n m q r hn hm
  · intro q hq r
    rw [hlive] at hq
    obtain ⟨hmem, n, hn⟩ := h.held q hq r
    rw [hopened]
    exact ⟨List.mem_append_left _ hmem, n, (hlookup n).trans hn⟩
  · intro q r hmem
    rw [hopened] at hmem
    rw [hpools]
    exact h.lt_of_mem_opened hmem
  · intro q r hmem
    rw [hcloses, List.mem_append] at hmem
    rw [hpools]
    rcases hmem with hold | hnew
    · exact Nat.lt_succ_of_lt (h.closed q r hold)
    · obtain ⟨r', -, heq⟩ := List.mem_map.mp hnew
      cases heq
      exact Nat.lt_succ_self _
  · rw [hlive]
    exact h.nodup
  · intro q hq hpool
    rw [hlive, ht.pool q hpool] at hq
    exact absurd hq h.pools_notMem
  · intro r q r' hn
    rcases ht.stale r with hfree | hzero
    · have hnone : s.fds.lookup (t.gEventLoop.number r) = none := hfree
      rw [hlookup, hnone] at hn
      cases hn
    · exact Or.inr hzero
  · refine ⟨fun q r hmem => ?_, fun hmem => ?_⟩
    · rw [hopened, mem_opened_append] at hmem
      rw [hcloses, List.count_append, count_map_loop (hperm.nodup_iff.mp hnodup), hlive]
      rcases hmem with hold | ⟨rfl, hr⟩
      · have hne : q ≠ s.pools := Nat.ne_of_lt (h.fresh q r hold)
        rw [if_neg fun hq => hne hq.1, Nat.add_zero]
        exact h.isolated.1 q r hold
      · rw [h.count_pools, if_pos ⟨rfl, hperm.mem_iff.mp hr⟩, if_neg h.pools_notMem]
    · rw [hcloses, List.mem_append] at hmem
      exact hmem.elim h.isolated.2 (notMem_map_loop rs')

/-- After a successful initialisation a number in use is one of the five new ones, or what it
was before. -/
theorem Opening.lookup_iff {s t : Program} {p : ℕ} (ht : Opening s p roles.reverse t) (n : ℤ)
    (q : ℕ) (r : Role) : t.fds.lookup n = some (.loop q r) ↔
      s.fds.lookup n = some (.loop q r) ∨ q = p ∧ n = t.gEventLoop.number r := by
  have hmem : ∀ r, r ∈ roles.reverse := fun r => List.mem_reverse.mpr (mem_roles r)
  constructor
  · intro hn
    by_cases hnew : n ∈ roles.reverse.map t.gEventLoop.number
    · obtain ⟨r', -, rfl⟩ := List.mem_map.mp hnew
      rw [ht.found r' (hmem r')] at hn
      cases hn
      exact Or.inr ⟨rfl, rfl⟩
    · exact Or.inl ((ht.frame n hnew).symm.trans hn)
  · rintro (hn | ⟨rfl, rfl⟩)
    · have hold : n ∉ roles.reverse.map t.gEventLoop.number := by
        intro hnew
        obtain ⟨r', -, rfl⟩ := List.mem_map.mp hnew
        rw [ht.free r' (hmem r')] at hn
        cases hn
      exact (ht.frame n hold).trans hn
    · exact ht.found r (hmem r)

/-- A successful initialisation adds a pool, whose record it is. -/
theorem Opening.sharing (h : s.Sharing)
    (ht : Opening { s with pools := s.pools + 1 } s.pools roles.reverse t) :
    { t with live := t.live ++ [s.pools] }.Sharing := by
  have hfound : ∀ r, t.fds.lookup (t.gEventLoop.number r) = some (.loop s.pools r) :=
    fun r => ht.found r (List.mem_reverse.mpr (mem_roles r))
  have hpools : t.pools = s.pools + 1 := ht.pools
  have hcloses : t.closes = s.closes := ht.closes
  have hlive : t.live = s.live := ht.live
  have hopened : t.opened = s.opened ++ roles.map fun r => (s.pools, r) := by
    have hall := ht.opened
    rwa [List.reverse_reverse] at hall
  have hlookup := ht.lookup_iff
  have hpast : ∀ n r, s.fds.lookup n ≠ some (.loop s.pools r) := fun n r hn =>
    h.pools_notMem (h.owned n s.pools r hn)
  constructor <;> simp only [hlive]
  · intro n q r hn
    rcases (hlookup n q r).mp hn with hold | ⟨rfl, -⟩
    · exact List.mem_append_left _ (h.owned n q r hold)
    · exact List.mem_append_right _ (List.mem_singleton_self _)
  · intro n m q r hn hm
    rcases (hlookup n q r).mp hn with hnold | ⟨rfl, hnnew⟩
    · rcases (hlookup m q r).mp hm with hmold | ⟨rfl, -⟩
      · exact h.unique n m q r hnold hmold
      · exact absurd hnold (hpast n r)
    · rcases (hlookup m s.pools r).mp hm with hmold | ⟨-, hmnew⟩
      · exact absurd hmold (hpast m r)
      · exact hnnew.trans hmnew.symm
  · intro q hq r
    rw [hopened, mem_opened_append]
    rcases List.mem_append.mp hq with hold | hnew
    · obtain ⟨hmem, n, hn⟩ := h.held q hold r
      exact ⟨Or.inl hmem, n, (hlookup n q r).mpr (Or.inl hn)⟩
    · rw [List.mem_singleton.mp hnew]
      exact ⟨Or.inr ⟨rfl, mem_roles r⟩, _, hfound r⟩
  · intro q r hmem
    rw [hopened] at hmem
    rw [hpools]
    exact h.lt_of_mem_opened hmem
  · intro q r hmem
    rw [hcloses] at hmem
    rw [hpools]
    exact Nat.lt_succ_of_lt (h.closed q r hmem)
  · refine List.nodup_append.mpr ⟨h.nodup, List.nodup_singleton _, fun a ha b hb heq => ?_⟩
    exact h.pools_notMem (List.mem_singleton.mp hb ▸ heq ▸ ha)
  · intro q _ hpool r
    rw [ht.pool] at hpool
    cases hpool
    exact hfound r
  · intro r q r' hn
    rw [hfound] at hn
    cases hn
    exact Or.inl ht.pool
  · refine ⟨fun q r hmem => ?_, ?_⟩ <;> simp only [hcloses]
    · rw [hopened, mem_opened_append] at hmem
      rcases hmem with hold | ⟨rfl, -⟩
      · have hne : q ≠ s.pools := Nat.ne_of_lt (h.fresh q r hold)
        rw [h.isolated.1 q r hold]
        exact if_congr (by rw [List.mem_append, List.mem_singleton, or_iff_left hne]) rfl rfl
      · rw [h.count_pools, if_pos (List.mem_append_right _ (List.mem_singleton_self _))]
    · exact h.isolated.2

theorem Program.Sharing.create (h : s.Sharing) (outcome : Option InitOutcome) :
    (poolCreate s outcome).Sharing := by
  cases outcome with
  | none => exact h
  | some outcome =>
      rcases eventLoopInit_spec
        (rfl : eventLoopInit { s with pools := s.pools + 1 } s.pools outcome = _) with
        ⟨htrue, hopening⟩ | ⟨hfalse, hundone⟩
      · simp only [poolCreate, if_pos htrue]
        exact hopening.sharing h
      · simp only [poolCreate, hfalse]
        exact hundone.sharing h

/-- `pool_destroy` of the pool whose record it is. -/
theorem Program.Sharing.destroy (h : s.Sharing) (hp : p ∈ s.live)
    (hown : s.gEventLoop.pool = some p) : (poolDestroy s p).Sharing := by
  have hfound := h.current p hp hown
  have hcloses := close_closes roles_nodup fun r _ => hfound r
  have herase : ∀ q, q ∈ s.live.erase p ↔ q ∈ s.live ∧ q ≠ p := fun q => by
    rw [h.nodup.mem_erase_iff, and_comm]
  -- What is still open is what it was before, and it is not of this pool.
  have hlookup : ∀ n q r, (s.close (roles.map s.gEventLoop.number)).fds.lookup n =
      some (.loop q r) ↔ s.fds.lookup n = some (.loop q r) ∧ q ≠ p := by
    intro n q r
    rw [lookup_close]
    split_ifs with hn
    · obtain ⟨r', -, rfl⟩ := List.mem_map.mp hn
      rw [hfound]
      constructor
      · intro hnone
        cases hnone
      · rintro ⟨heq, hne⟩
        cases heq
        exact absurd rfl hne
    · refine ⟨fun hq => ⟨hq, ?_⟩, fun hq => hq.1⟩
      rintro rfl
      exact hn (List.mem_map.mpr ⟨r, mem_roles r, h.unique _ _ _ _ (hfound r) hq⟩)
  rw [poolDestroy, eventLoopCleanup_eq hfound]
  constructor <;> dsimp only
  · intro n q r hn
    obtain ⟨hold, hne⟩ := (hlookup n q r).mp hn
    exact (herase q).mpr ⟨h.owned n q r hold, hne⟩
  · intro n m q r hn hm
    exact h.unique n m q r ((hlookup n q r).mp hn).1 ((hlookup m q r).mp hm).1
  · intro q hq r
    obtain ⟨hlive, hne⟩ := (herase q).mp hq
    obtain ⟨hmem, n, hn⟩ := h.held q hlive r
    exact ⟨hmem, n, (hlookup n q r).mpr ⟨hn, hne⟩⟩
  · exact h.fresh
  · intro q r hmem
    rw [hcloses, List.mem_append] at hmem
    rcases hmem with hold | hnew
    · exact h.closed q r hold
    · obtain ⟨r', -, heq⟩ := List.mem_map.mp hnew
      cases heq
      exact h.fresh p r (h.held p hp r).1
  · exact h.nodup.erase p
  · intro q _ hpool
    cases hpool
  · exact fun r q r' _ => Or.inr rfl
  · refine ⟨fun q r hmem => ?_, fun hmem => ?_⟩
    · have hold : (q, r) ∈ s.opened := hmem
      dsimp only
      rw [hcloses, List.count_append, count_map_loop roles_nodup, h.isolated.1 q r hold]
      by_cases hq : q = p
      · subst hq
        rw [if_pos hp, if_pos ⟨rfl, mem_roles r⟩, if_neg fun hlive => ((herase q).mp hlive).2 rfl]
      · have hnot : ¬(q = p ∧ r ∈ roles) := fun heq => hq heq.1
        rw [if_neg hnot, Nat.add_zero]
        exact if_congr (by rw [herase, and_iff_left hq]) rfl rfl
    · dsimp only at hmem
      rw [hcloses, List.mem_append] at hmem
      exact hmem.elim h.isolated.2 (notMem_map_loop roles)

/-- With the record of another pool, the descriptors of the pool that is destroyed stay
open: what else the record has of it is at most the number zero. -/
theorem Program.Sharing.not_isolated_destroy (h : s.Sharing) (hp : p ∈ s.live)
    (hown : s.gEventLoop.pool ≠ some p) : ¬Isolated (poolDestroy s p) := by
  intro hiso
  have hzero : ∀ r, s.fds.lookup 0 = some (.loop p r) := by
    intro r
    have hcount := hiso.1 p r (h.held p hp r).1
    have hgone : p ∉ (poolDestroy s p).live := h.nodup.not_mem_erase
    have hnone : some (.loop p r) ∉ s.closes := by
      have hopen := h.isolated.1 p r (h.held p hp r).1
      rw [if_pos hp] at hopen
      exact List.count_eq_zero.mp hopen
    rw [if_neg hgone] at hcount
    have hmem : some (.loop p r) ∈ (poolDestroy s p).closes :=
      List.count_pos_iff.mp (hcount ▸ Nat.one_pos)
    obtain ⟨fd, hfd, hlookup⟩ := Table.mem_closeAll ((List.mem_append.mp hmem).resolve_left hnone)
    obtain ⟨r', -, rfl⟩ := List.mem_map.mp (List.mem_filter.mp hfd).1
    rcases h.stale r' p r hlookup with hpool | heq
    · exact absurd hpool hown
    · rw [heq] at hlookup
      exact hlookup
  have hsame := (hzero .epoll).symm.trans (hzero .timer)
  cases hsame

/-- Other code opens a descriptor, or closes one of its own. -/
theorem Program.Sharing.other (h : s.Sharing) {fds : Table Owner}
    (hfds : ∀ n q r, fds.lookup n = some (.loop q r) ↔ s.fds.lookup n = some (.loop q r)) :
    { s with fds := fds }.Sharing where
  owned := fun n q r hn => h.owned n q r ((hfds n q r).mp hn)
  unique := fun n m q r hn hm => h.unique n m q r ((hfds n q r).mp hn) ((hfds m q r).mp hm)
  held := fun q hq r =>
    ⟨(h.held q hq r).1, (h.held q hq r).2.imp fun n hn => (hfds n q r).mpr hn⟩
  fresh := h.fresh
  closed := h.closed
  nodup := h.nodup
  current := fun q hq hpool r => (hfds _ q r).mpr (h.current q hq hpool r)
  stale := fun r q r' hn => h.stale r q r' ((hfds _ q r').mp hn)
  isolated := h.isolated

theorem Program.Sharing.openOther (h : s.Sharing) :
    { s with fds := (s.fds.openFile .other).2 }.Sharing := by
  refine h.other fun n q r => ?_
  rw [s.fds.lookup_openFile]
  by_cases hn : n = (s.fds.openFile .other).1
  · subst hn
    rw [Function.update_self, (s.fds.openFile_free .other).2]
    exact iff_of_false (fun heq => by cases heq) (fun heq => by cases heq)
  · rw [Function.update_of_ne hn]

theorem Program.Sharing.closeOther (h : s.Sharing) {fd : ℤ}
    (hfd : s.fds.lookup fd = some .other) : { s with fds := s.fds.close fd }.Sharing := by
  refine h.other fun n q r => ?_
  rw [s.fds.lookup_close]
  by_cases hn : n = fd
  · subst hn
    rw [Function.update_self, hfd]
    exact iff_of_false (fun heq => by cases heq) (fun heq => by cases heq)
  · rw [Function.update_of_ne hn]

theorem sharing_start (opened : List Bool) : (Program.start opened).Sharing := by
  have hlookup : ∀ n p r, (Program.start opened).fds.lookup n ≠ some (.loop p r) := by
    intro n p r hn
    rw [Table.lookup] at hn
    split_ifs at hn with hneg
    rw [List.getD_eq_getElem?_getD, Program.start, List.getElem?_map] at hn
    cases hbit : opened[n.toNat]? with
    | none =>
        rw [hbit] at hn
        cases hn
    | some b =>
        rw [hbit] at hn
        cases b <;> cases hn
  constructor
  · exact fun n p r hn => absurd hn (hlookup n p r)
  · exact fun n m p r hn _ => absurd hn (hlookup n p r)
  · exact fun p hp => absurd hp List.not_mem_nil
  · exact fun p r hmem => absurd hmem List.not_mem_nil
  · exact fun p r hmem => absurd hmem List.not_mem_nil
  · exact List.nodup_nil
  · exact fun p hp => absurd hp List.not_mem_nil
  · exact fun r p r' hn => absurd hn (hlookup _ p r')
  · exact ⟨fun p r hmem => absurd hmem List.not_mem_nil, List.not_mem_nil⟩

/-- What one call does to the pools. -/
theorem Program.Sharing.step_spec (h : s.Sharing) {l : PoolCall} (hstep : s.step l = some t) :
    (OwnRecord s l → t.Sharing) ∧ (¬OwnRecord s l → ¬Isolated t) := by
  cases l with
  | create outcome =>
      obtain rfl := Option.some.inj hstep
      exact ⟨fun _ => h.create outcome, fun hnot => absurd trivial hnot⟩
  | destroy p =>
      rw [Program.step, Option.ite_none_right_eq_some] at hstep
      obtain ⟨hp, heq⟩ := hstep
      obtain rfl := Option.some.inj heq
      exact ⟨h.destroy hp, h.not_isolated_destroy hp⟩
  | openOther =>
      obtain rfl := Option.some.inj hstep
      exact ⟨fun _ => h.openOther, fun hnot => absurd trivial hnot⟩
  | closeOther fd =>
      rw [Program.step, Option.ite_none_right_eq_some] at hstep
      obtain ⟨hfd, heq⟩ := hstep
      obtain rfl := Option.some.inj heq
      exact ⟨fun _ => h.closeOther hfd, fun hnot => absurd trivial hnot⟩

end Calls

/-- The pools are isolated from each other in exactly the runs in which each pool is
destroyed while `g_event_loop` is its own record: no other pool has reached
`event_loop_init` since it was created, and none has been destroyed. -/
theorem isolated_iff (opened : List Bool) (ls : List PoolCall) (t : Program) :
    Transition.Run (pools.filter fun _ _ u => Isolated u) (Program.start opened) ls t ↔
      Transition.Run (pools.restrict OwnRecord) (Program.start opened) ls t := by
  refine Transition.run_filter_iff_restrict (I := Program.Sharing) ?_ ?_ (sharing_start opened)
  · exact fun s l t h hown hstep => (h.step_spec hstep).1 hown
  · intro s l t h hstep
    obtain ⟨hown, hforeign⟩ := h.step_spec hstep
    refine ⟨fun hiso => ?_, fun hC => (hown hC).isolated⟩
    by_contra hC
    exact hforeign hC hiso

/-- The initialisation of a second pool overwrites the record. Destroying the first pool
then closes the descriptors of the second. -/
theorem second_pool_closed :
    ¬∀ (opened : List Bool) (ls : List PoolCall) (t : Program),
      Transition.Run pools (Program.start opened) ls t → Isolated t := by
  intro h
  have hrun := h [true, true, true] [.create (some ⟨fun _ => false, true, true⟩),
    .create (some ⟨fun _ => false, true, true⟩), .destroy 0] _
    (.cons rfl (.cons rfl (.cons rfl (.nil _))))
  exact absurd (hrun.1 0 .epoll (by decide)) (by decide)

end EventLoop

end ModernPool

end ProcessThreadPool

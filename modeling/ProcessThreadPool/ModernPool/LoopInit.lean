import Mathlib.Data.List.Nodup
import Mathlib.Data.List.Count
import ProcessThreadPool.ModernPool.EventLoop

/-!
# One call of `event_loop_init` or `event_loop_cleanup`

An initialisation that succeeds has its five descriptors in the record, and one that fails
has closed what it opened. A cleanup with the five descriptors in the record closes them.
-/

namespace ProcessThreadPool

namespace ModernPool

namespace EventLoop

open DescriptorTable

/-! ## Closing the descriptors of one pool -/

section Closing

variable {s : Program} {p : ℕ} {rs : List Role}

theorem roles_nodup : roles.Nodup := by decide

theorem mem_roles (r : Role) : r ∈ roles := by
  cases r <;> decide

theorem lookup_close (s : Program) (fds : List ℤ) (n : ℤ) :
    (s.close fds).fds.lookup n = if n ∈ fds then none else s.fds.lookup n :=
  s.fds.lookup_closeAll fds n

/-- The calls of `close` find the descriptors of the pool, one after the other. -/
theorem close_closes (hnodup : rs.Nodup)
    (hfound : ∀ r ∈ rs, s.fds.lookup (s.gEventLoop.number r) = some (.loop p r)) :
    (s.close (rs.map s.gEventLoop.number)).closes =
      s.closes ++ rs.map fun r => some (.loop p r) := by
  have hnumbers : (rs.map s.gEventLoop.number).Nodup := by
    refine (List.nodup_map_iff_inj_on hnodup).mpr fun r hr r' hr' heq => ?_
    have hsame := hfound r hr
    rw [heq, hfound r' hr'] at hsame
    cases hsame
    rfl
  rw [Program.close, Table.closeAll_of_nodup _ hnumbers, List.map_map]
  exact congrArg _ (List.map_congr_left hfound)

/-- `event_loop_cleanup` closes all five descriptors of the pool when the record has
them. -/
theorem eventLoopCleanup_eq
    (hfound : ∀ r, s.fds.lookup (s.gEventLoop.number r) = some (.loop p r)) :
    eventLoopCleanup s =
      { s.close (roles.map s.gEventLoop.number) with gEventLoop := Record.zero } := by
  have hall : (roles.map s.gEventLoop.number).filter (0 ≤ ·) =
      roles.map s.gEventLoop.number := by
    refine List.filter_eq_self.mpr fun n hn => decide_eq_true (Int.not_lt.mp fun hneg => ?_)
    obtain ⟨r, -, rfl⟩ := List.mem_map.mp hn
    have hopen := hfound r
    rw [s.fds.lookup_of_neg hneg] at hopen
    cases hopen
  rw [eventLoopCleanup, hall]

theorem count_map_loop (hnodup : rs.Nodup) (q : ℕ) (r : Role) :
    (rs.map fun r => some (Owner.loop p r)).count (some (.loop q r)) =
      if q = p ∧ r ∈ rs then 1 else 0 := by
  by_cases hq : q = p
  · subst hq
    have hinj : Function.Injective fun r => some (Owner.loop q r) := by
      intro r r' heq
      cases heq
      rfl
    rw [List.count_map_of_injective rs _ hinj, hnodup.count]
    exact if_congr (by simp) rfl rfl
  · rw [if_neg fun h => hq h.1, List.count_eq_zero]
    intro hmem
    obtain ⟨r', -, heq⟩ := List.mem_map.mp hmem
    cases heq
    exact hq rfl

end Closing

/-! ## One call of `event_loop_init` -/

/-- In the middle of `event_loop_init`: the descriptors opened so far are open under the
numbers in the record, which were free, and nothing else has changed. -/
structure Opening (s₀ : Program) (p : ℕ) (done : List Role) (s : Program) : Prop where
  nodup : done.Nodup
  free : ∀ r ∈ done, s₀.fds.lookup (s.gEventLoop.number r) = none
  found : ∀ r ∈ done, s.fds.lookup (s.gEventLoop.number r) = some (.loop p r)
  frame : ∀ n, n ∉ done.map s.gEventLoop.number → s.fds.lookup n = s₀.fds.lookup n
  zero : ∀ r, r ∉ done → s.gEventLoop.number r = 0
  pool : s.gEventLoop.pool = some p
  live : s.live = s₀.live
  pools : s.pools = s₀.pools
  opened : s.opened = s₀.opened ++ done.reverse.map fun r => (p, r)
  closes : s.closes = s₀.closes

/-- After an initialisation that failed: what was opened has been closed, and the record
has no number under which anything was open, other than zeros. -/
structure Undone (s₀ : Program) (p : ℕ) (t : Program) : Prop where
  lookup : ∀ n, t.fds.lookup n = s₀.fds.lookup n
  pool : ∀ q, t.gEventLoop.pool = some q → q = p
  stale : ∀ r, s₀.fds.lookup (t.gEventLoop.number r) = none ∨ t.gEventLoop.number r = 0
  live : t.live = s₀.live
  pools : t.pools = s₀.pools
  tried : ∃ rs rs' : List Role, rs.Nodup ∧ rs.Perm rs' ∧
    t.opened = s₀.opened ++ rs.map (fun r => (p, r)) ∧
    t.closes = s₀.closes ++ rs'.map fun r => some (.loop p r)

section Init

variable {s₀ s t : Program} {p : ℕ} {done rs : List Role} {r : Role} {outcome : InitOutcome}

theorem opening_start (s₀ : Program) (p : ℕ) :
    Opening s₀ p [] { s₀ with gEventLoop := { Record.zero with pool := some p } } where
  nodup := List.nodup_nil
  free := List.forall_mem_nil _
  found := List.forall_mem_nil _
  frame := fun _ _ => rfl
  zero := fun _ _ => rfl
  pool := rfl
  live := rfl
  pools := rfl
  opened := (List.append_nil _).symm
  closes := rfl

/-- The next descriptor gets a number of its own. -/
theorem Opening.openRole (h : Opening s₀ p done s) (hr : r ∉ done) :
    Opening s₀ p (r :: done) ((s.openRole p r).2.setNumber r (s.openRole p r).1) := by
  obtain ⟨-, hfree⟩ := s.fds.openFile_free (.loop p r)
  have hlookup := s.fds.lookup_openFile (.loop p r)
  have hnew : ∀ r' ∈ done, s.gEventLoop.number r' ≠ (s.fds.openFile (.loop p r)).1 := by
    intro r' hr' heq
    have hopen := h.found r' hr'
    rw [heq, hfree] at hopen
    cases hopen
  have hother : ∀ r' ∈ done, Function.update s.gEventLoop.number r
      (s.fds.openFile (.loop p r)).1 r' = s.gEventLoop.number r' := by
    intro r' hr'
    have hne : r' ≠ r := fun heq => hr (heq ▸ hr')
    exact Function.update_of_ne hne _ _
  have hself : Function.update s.gEventLoop.number r (s.fds.openFile (.loop p r)).1 r =
      (s.fds.openFile (.loop p r)).1 := Function.update_self _ _ _
  constructor
  · exact List.nodup_cons.mpr ⟨hr, h.nodup⟩
  · refine List.forall_mem_cons.mpr ⟨?_, fun r' hr' => ?_⟩ <;>
      simp only [Program.setNumber, Program.openRole]
    · rw [hself, ← hfree]
      refine (h.frame _ fun hmem => ?_).symm
      obtain ⟨r', hr', heq⟩ := List.mem_map.mp hmem
      exact hnew r' hr' heq
    · rw [hother r' hr']
      exact h.free r' hr'
  · refine List.forall_mem_cons.mpr ⟨?_, fun r' hr' => ?_⟩ <;>
      simp only [Program.setNumber, Program.openRole]
    · rw [hself, hlookup, Function.update_self]
    · rw [hother r' hr', hlookup, Function.update_of_ne (hnew r' hr')]
      exact h.found r' hr'
  · intro n hn
    simp only [Program.setNumber, Program.openRole, List.map_cons, List.mem_cons, hself,
      not_or] at hn ⊢
    rw [hlookup, Function.update_of_ne hn.1]
    refine h.frame n fun hmem => hn.2 ?_
    rwa [List.map_congr_left hother]
  · intro r' hr'
    rw [List.mem_cons, not_or] at hr'
    simp only [Program.setNumber, Program.openRole]
    rw [Function.update_of_ne hr'.1]
    exact h.zero r' hr'.2
  · exact h.pool
  · exact h.live
  · exact h.pools
  · simp only [Program.setNumber, Program.openRole, h.opened, List.reverse_cons,
      List.map_append, List.append_assoc, List.map_singleton]
  · exact h.closes

/-- Closing what was opened undoes it. `extra` are descriptors that were opened and closed
again by themselves. -/
theorem Opening.undone (h : Opening s₀ p done s) (extra : List Role)
    (hextra : (done ++ extra).Nodup) (hlookup : ∀ n, t.fds.lookup n = s.fds.lookup n)
    (hnumber : ∀ r ∈ done, t.gEventLoop.number r = s.gEventLoop.number r)
    (hrecord : ∀ r, r ∉ done → t.gEventLoop.number r = 0 ∨ t.gEventLoop.number r < 0)
    (hpool : t.gEventLoop.pool = some p) (hlive : t.live = s₀.live)
    (hpools : t.pools = s₀.pools)
    (hopened : t.opened = s.opened ++ extra.map fun r => (p, r))
    (hcloses : t.closes = s.closes ++ extra.map fun r => some (.loop p r)) :
    Undone s₀ p (t.close (done.map t.gEventLoop.number)) := by
  have hsame : done.map t.gEventLoop.number = done.map s.gEventLoop.number :=
    List.map_congr_left hnumber
  have hfound : ∀ r ∈ done, t.fds.lookup (t.gEventLoop.number r) = some (.loop p r) := by
    intro r hr
    rw [hlookup, hnumber r hr]
    exact h.found r hr
  constructor
  · intro n
    rw [lookup_close]
    split_ifs with hn
    · obtain ⟨r, hr, rfl⟩ := List.mem_map.mp hn
      rw [hnumber r hr]
      exact (h.free r hr).symm
    · rw [hlookup]
      exact h.frame n (hsame ▸ hn)
  · intro q hq
    exact (Option.some.inj (hpool.symm.trans hq)).symm
  · intro r
    by_cases hr : r ∈ done
    · left
      rw [show (t.close (done.map t.gEventLoop.number)).gEventLoop.number r =
        t.gEventLoop.number r from rfl, hnumber r hr]
      exact h.free r hr
    · rcases hrecord r hr with hzero | hneg
      · exact Or.inr hzero
      · exact Or.inl (s₀.fds.lookup_of_neg hneg)
  · exact hlive
  · exact hpools
  · refine ⟨done.reverse ++ extra, extra ++ done, ?_, ?_, ?_, ?_⟩
    · exact (((List.reverse_perm done).append_right extra).nodup_iff).mpr hextra
    · exact ((List.reverse_perm done).append_right extra).trans List.perm_append_comm
    · rw [List.map_append, ← List.append_assoc, ← h.opened]
      exact hopened
    · rw [close_closes h.nodup hfound, hcloses, h.closes, List.map_append, List.append_assoc]

theorem Program.lookup_openRole_close (s : Program) (p : ℕ) (r : Role) (n : ℤ) :
    ((s.openRole p r).2.close [(s.openRole p r).1]).fds.lookup n = s.fds.lookup n := by
  rw [lookup_close]
  split_ifs with hn
  · rw [List.mem_singleton.mp hn]
    exact (s.fds.openFile_free (.loop p r)).2.symm
  · have hne : n ≠ (s.fds.openFile (.loop p r)).1 := fun heq => hn (List.mem_singleton.mpr heq)
    rw [Program.openRole, s.fds.lookup_openFile, Function.update_of_ne hne]

theorem Program.closes_openRole_close (s : Program) (p : ℕ) (r : Role) :
    ((s.openRole p r).2.close [(s.openRole p r).1]).closes =
      s.closes ++ [some (.loop p r)] := by
  have hfound : (s.openRole p r).2.fds.lookup (s.openRole p r).1 = some (.loop p r) := by
    rw [Program.openRole, s.fds.lookup_openFile, Function.update_self]
  simp only [Program.close, Table.closeAll, hfound]
  rfl

/-- The cleanup after a failure of `add_epoll_event` closes all five descriptors. -/
theorem Opening.cleanup (h : Opening s₀ p roles.reverse s) :
    Undone s₀ p (eventLoopCleanup s) := by
  have hmem : ∀ r, r ∈ roles.reverse := fun r => List.mem_reverse.mpr (mem_roles r)
  have hfound : ∀ r, s.fds.lookup (s.gEventLoop.number r) = some (.loop p r) :=
    fun r => h.found r (hmem r)
  rw [eventLoopCleanup_eq hfound]
  constructor
  · intro n
    refine (lookup_close s (roles.map s.gEventLoop.number) n).trans ?_
    split_ifs with hn
    · obtain ⟨r, -, rfl⟩ := List.mem_map.mp hn
      exact (h.free r (hmem r)).symm
    · refine h.frame n fun hn' => hn ?_
      rwa [List.map_reverse, List.mem_reverse] at hn'
  · intro q hq
    cases hq
  · exact fun r => Or.inr rfl
  · exact h.live
  · exact h.pools
  · refine ⟨roles, roles, roles_nodup, List.Perm.refl roles, ?_, ?_⟩
    · have hopened := h.opened
      rw [List.reverse_reverse] at hopened
      exact hopened
    · have hcloses := close_closes roles_nodup fun r _ => hfound r
      rw [h.closes] at hcloses
      exact hcloses

/-- A prefix of `event_loop_init` succeeds, or it undoes what it has done. -/
theorem initAmong_spec (h : Opening s₀ p done s) (hrs : (done ++ rs).Nodup)
    {result : Bool × Program} (hr : initAmong p outcome done rs s = result) :
    result.1 = true ∧ Opening s₀ p (rs.reverse ++ done) result.2 ∨
      result.1 = false ∧ Undone s₀ p result.2 := by
  induction rs generalizing done s with
  | nil =>
      subst hr
      exact Or.inl ⟨rfl, h⟩
  | cons r rs ih =>
      have hnew : r ∉ done := fun hmem =>
        (List.nodup_append.mp hrs).2.2 r hmem r List.mem_cons_self rfl
      have hnumber : ∀ (u : Program) (fd : ℤ), u.gEventLoop = s.gEventLoop → ∀ r' ∈ done,
          (u.setNumber r fd).gEventLoop.number r' = s.gEventLoop.number r' := by
        intro u fd hu r' hr'
        have hne : r' ≠ r := fun heq => hnew (heq ▸ hr')
        rw [← hu]
        exact Function.update_of_ne hne _ _
      have hrecord : ∀ u : Program, u.gEventLoop = s.gEventLoop → ∀ r', r' ∉ done →
          (u.setNumber r (-1)).gEventLoop.number r' = 0 ∨
            (u.setNumber r (-1)).gEventLoop.number r' < 0 := by
        intro u hu r' hr'
        by_cases heq : r' = r
        · subst heq
          have hself : (u.setNumber r' (-1)).gEventLoop.number r' = -1 :=
            Function.update_self _ _ _
          rw [hself]
          exact Or.inr (by decide)
        · have hold : (u.setNumber r (-1)).gEventLoop.number r' = u.gEventLoop.number r' :=
            Function.update_of_ne heq _ _
          rw [hold, hu]
          exact Or.inl (h.zero r' hr')
      have hopen := s.fds.openFile_free (.loop p r)
      have hnonneg : (s.openRole p r).1 ≠ -1 := fun heq => by
        have hle : 0 ≤ (s.openRole p r).1 := hopen.1
        omega
      by_cases hrefused : outcome.refused r = true
      · have hfail : setUpRole s p r outcome = (-1, s) := if_pos hrefused
        rw [initAmong, hfail, if_pos rfl] at hr
        subst hr
        exact Or.inr ⟨rfl, h.undone [] ((List.append_nil done).symm ▸ h.nodup)
          (fun _ => rfl) (hnumber s _ rfl) (hrecord s rfl) h.pool h.live h.pools
          (List.append_nil _).symm (List.append_nil _).symm⟩
      · by_cases htimer : r = .timer ∧ outcome.timerSet = false
        · have hfail : setUpRole s p r outcome =
              (-1, (s.openRole p r).2.close [(s.openRole p r).1]) := by
            rw [setUpRole, if_neg hrefused, if_pos htimer]
          rw [initAmong, hfail, if_pos rfl] at hr
          subst hr
          refine Or.inr ⟨rfl, h.undone [r] ?_ (fun n => ?_) (hnumber _ _ rfl)
            (hrecord _ rfl) h.pool h.live h.pools rfl ?_⟩
          · exact List.nodup_append.mpr ⟨h.nodup, List.nodup_singleton r,
              fun a ha b hb heq => hnew (List.mem_singleton.mp hb ▸ heq ▸ ha)⟩
          · exact s.lookup_openRole_close p r n
          · exact s.closes_openRole_close p r
        · have hdone : setUpRole s p r outcome = s.openRole p r := by
            rw [setUpRole, if_neg hrefused, if_neg htimer]
          rw [initAmong, hdone, if_neg hnonneg] at hr
          have hperm : (r :: done ++ rs).Nodup := List.perm_middle.nodup_iff.mp hrs
          rw [List.reverse_cons, List.append_assoc]
          exact ih (h.openRole hnew) hperm hr

/-- `event_loop_init` succeeds, or it undoes what it has done. -/
theorem eventLoopInit_spec {result : Bool × Program}
    (hr : eventLoopInit s₀ p outcome = result) :
    result.1 = true ∧ Opening s₀ p roles.reverse result.2 ∨
      result.1 = false ∧ Undone s₀ p result.2 := by
  have hspec := initAmong_spec (opening_start s₀ p) roles_nodup
    (rfl : initAmong p outcome [] roles _ = _)
  rw [List.append_nil] at hspec
  rw [eventLoopInit] at hr
  rcases hspec with ⟨htrue, hopening⟩ | ⟨hfalse, hundone⟩
  · rw [if_neg (by rw [htrue]; decide)] at hr
    split_ifs at hr with hadded
    · subst hr
      exact Or.inl ⟨htrue, hopening⟩
    · subst hr
      exact Or.inr ⟨rfl, hopening.cleanup⟩
  · rw [if_pos hfalse] at hr
    subst hr
    exact Or.inr ⟨hfalse, hundone⟩

end Init

end EventLoop

end ModernPool

end ProcessThreadPool

import InterprocessMemPool.MempoolIPC.Pipe.Theorems.Send
import InterprocessMemPool.MempoolIPC.Pipe.Theorems.Tokens
import InterprocessMemPool.MempoolIPC.Router.Theorems.Sweep

namespace RouterIPC

variable {α : Type*} {c : Config α} {i n : ℕ}

-- The living pipes that a `Send` has left out, given the state in which it gave up the mutex. There
-- are none unless the size of the vector does not fit into an `int`.
def unreached (r : RouterIPC α) (rs : Records α) : List ℕ :=
  (r.pipes.drop (visits rs).length).filter r.alive

def living (r : RouterIPC α) (rs : Records α) : List ℕ :=
  visits rs ++ unreached r rs

theorem unreached_eq_nil {r : RouterIPC α} {rs : Records α} (hl : r.pipes.length < 2 ^ 31)
    (h : SizeT.toInt r.pipes.length ≤ (visits rs).length) : unreached r rs = [] := by
  rw [SizeT.toInt_of_lt hl] at h
  simp [unreached, List.drop_eq_nil_of_le (Int.ofNat_le.mp h)]

-- The living pipes that did not get the pointer are those that have reported an error, those that
-- have refused it silently, and those that the `Send` did not get to.
theorem send_count {s : Send α} (h : ((program α).system WellFormed).Reachable c)
    (hs : c.calls[i]? = some (.send s)) (hr : s.pc = .returned n) :
    ∃ last ∈ (c.recordsOf i).getLast?, (living last.pre.1 (c.recordsOf i)).Nodup ∧
      (last.pre.1.pipes.length < 2 ^ 31 → unreached last.pre.1 (c.recordsOf i) = []) ∧
      ((living last.pre.1 (c.recordsOf i)).filter (· ∉ stores (c.recordsOf i))).length =
        n + (refusals (c.recordsOf i)).length + (unreached last.pre.1 (c.recordsOf i)).length := by
  have hsw := swept h hs
  simp only [Send.Swept, hr] at hsw
  obtain ⟨last, hl, hn, hlt, hv, ht⟩ := hsw
  generalize c.recordsOf i = rs at *
  have hsub : (living last.pre.1 rs).Sublist last.pre.1.pipes := by
    rw [living, ← List.take_append_drop (visits rs).length last.pre.1.pipes, ← hv]
    exact List.filter_sublist.append_left _
  have hnod := hn.sublist hsub
  refine ⟨last, hl, hnod, fun hlen => unreached_eq_nil hlen hlt, ?_⟩
  obtain ⟨hnv, _, hdis⟩ := List.nodup_append.mp hnod
  have hst : (stores rs).Sublist (visits rs) := hv ▸ ht.sublist
  have hun : (unreached last.pre.1 rs).filter (· ∉ stores rs) = unreached last.pre.1 rs := by
    refine List.filter_eq_self.mpr fun k hk => ?_
    simpa using fun hks => hdis k (hst.subset hks) k hk rfl
  have hvis := length_filter_not_mem hst hnv
  have heq := ht.eq
  rw [living, List.filter_append, List.length_append, hun]
  omega

-- `Send` on a pipe only lies about a pipe that was shut down from the start, and so does the number of
-- errors that `Send` on a router returns.
theorem send_truthful_iff :
    (∀ {Init : PipeIPC α → Prop} {c : PipeIPC.Config α} {i : ℕ} {s : PipeIPC.Send α} {hadError},
      ((PipeIPC.program α).system Init).Reachable c → c.calls[i]? = some (.send s) →
      s.pc = .returned hadError →
        ((hadError = false ↔ PipeIPC.Stored s.ptr (c.recordsOf i)) ↔
          ¬PipeIPC.Refused (c.recordsOf i))) ∧
    (∀ {c : Config α} {i : ℕ} {s : Send α} {n},
      ((program α).system WellFormed).Reachable c → c.calls[i]? = some (.send s) →
      s.pc = .returned n →
        ∃ last ∈ (c.recordsOf i).getLast?, (living last.pre.1 (c.recordsOf i)).Nodup ∧
          (n = ((living last.pre.1 (c.recordsOf i)).filter (· ∉ stores (c.recordsOf i))).length ↔
            refusals (c.recordsOf i) = [] ∧ unreached last.pre.1 (c.recordsOf i) = []) ∧
          (last.pre.1.pipes.length < 2 ^ 31 → unreached last.pre.1 (c.recordsOf i) = [])) := by
  refine ⟨PipeIPC.Send.flag_iff, fun h hs hr => ?_⟩
  have ⟨last, hl, hnod, hun, hcount⟩ := send_count h hs hr
  refine ⟨last, hl, hnod, ?_, hun⟩
  simp only [hcount, ← List.length_eq_zero_iff]
  omega

theorem send_truthful_iff_run :
    (∃ c : PipeIPC.Config ℕ, c.calls[0]? = some (.send { ptr := some 7, pc := .returned false }) ∧
      PipeIPC.Stored (some 7) (c.recordsOf 0)) ∧
    (∃ c : Config ℕ, c.calls[2]? = some (.send { ptr := some 8, pc := .returned 1 }) ∧
      ∃ last ∈ (c.recordsOf 2).getLast?,
        1 = ((living last.pre.1 (c.recordsOf 2)).filter (· ∉ stores (c.recordsOf 2))).length) := by
  obtain ⟨hp, hr⟩ := send_truthful_iff (α := ℕ)
  constructor
  · obtain ⟨c, hc, hs, hn⟩ : ∃ c, ((PipeIPC.system ℕ 1).restrict fun _ _ => True).Reachable c ∧
        c.calls[0]? = some (.send { ptr := some 7, pc := .returned false }) ∧
        ∀ r ∈ (c.recordsOf 0).head?, r.pre.1.shutdown = false :=
      Program.exec_reachable (s := PipeIPC.new 1) rfl <| show Option.any _ (System.exec _ _ _ [
        .enter (.send { ptr := some 7 }), .run 0 false, .run 0 false, .run 0 false, .run 0 false,
        .run 0 false]) by decide +kernel
    refine ⟨c, hs, (hp hc.of_restrict hs rfl).mpr ?_ |>.mp rfl⟩
    simpa [PipeIPC.Refused] using hn
  · obtain ⟨c, hc, hs, hn, hl⟩ : ∃ c : Config ℕ,
        (((program ℕ).system WellFormed).restrict fun _ _ => True).Reachable c ∧
        c.calls[2]? = some (.send { ptr := some 8, pc := .returned 1 }) ∧
        refusals (c.recordsOf 2) = [] ∧
        ∀ last ∈ (c.recordsOf 2).getLast?, last.pre.1.pipes.length < 2 ^ 31 :=
      Program.exec_reachable (s := new) .new <| show Option.any _ (System.exec _ _ _ [
        .enter (.receiver (.registering 1)), .run 0 {}, .run 0 {},
        .enter (.send { ptr := some 7 }), .run 1 {}, .run 1 {}, .run 1 {}, .run 1 {}, .run 1 {},
        .run 1 {}, .run 1 {}, .run 1 {}, .run 1 {},
        .enter (.send { ptr := some 8 }), .run 2 {}, .run 2 {}, .run 2 {}, .run 2 {}, .run 2 {},
        .run 2 {}, .run 2 {}]) by decide +kernel
    obtain ⟨last, hm, _, hi, hu⟩ := hr hc.of_restrict hs rfl
    exact ⟨c, hs, last, hm, hi.mpr ⟨hn, hu (hl last hm)⟩⟩

-- A pipe that has been shut down takes no pointer, but reports no error either.
theorem send_lies_if_shutdown :
    (∃ c, (PipeIPC.system ℕ 1).Reachable c ∧
      c.calls[1]? = some (.send { ptr := some 7, pc := .returned false }) ∧
      Fifo.enqueued (PipeIPC.ops c) = []) ∧
    (∃ c : Config ℕ, ((program ℕ).system WellFormed).Reachable c ∧
      c.calls[1]? = some (.send { ptr := some 7, pc := .returned 0 }) ∧ c.shared.alive 0 ∧
      visits (c.recordsOf 1) = [0] ∧ stores (c.recordsOf 1) = []) := by
  rw [← System.restrict_true (S := PipeIPC.system ℕ 1),
    ← System.restrict_true (S := (program ℕ).system WellFormed)]
  constructor
  · exact Program.exec_reachable (s := PipeIPC.new 1) rfl <| show Option.any _ (System.exec _ _ _ [
      .enter (.shutdown .entered), .run 0 false, .run 0 false, .run 0 false,
      .enter (.send { ptr := some 7 }), .run 1 false]) by decide +kernel
  · exact Program.exec_reachable (s := new) .new <| show Option.any _ (System.exec _ _ _ [
      .enter (.receiver (.registering 1)), .run 0 {}, .run 0 {},
      .run 0 { call := some (.shutdown .entered) }, .run 0 {}, .run 0 {}, .run 0 {},
      .enter (.send { ptr := some 7 }), .run 1 {}, .run 1 {}, .run 1 {}, .run 1 {},
      .run 1 {}]) by decide +kernel

end RouterIPC

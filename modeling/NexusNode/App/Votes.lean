import Mathlib.Algebra.BigOperators.Group.List.Basic
import Mathlib.Algebra.Order.BigOperators.Group.List
import Mathlib.Algebra.Ring.Int.Defs
import NexusNode.App.Proposal
import NexusNode.Program.Machine

/-!
# The voting power behind a block

`ProcessProposal` adds up the powers of the last commit in signed 64-bit arithmetic and compares
the committed power with a truncated quotient. Within the limit of CometBFT on the total power
nothing wraps around, neither a running sum nor the doubled total, and the truncation does not
change the comparison. So the check is that of a two-thirds majority over the integers.

## Main definitions

* `totalPower`, `committedPower`: the powers of a commit over the integers
* `VotesBounded`: the limit that CometBFT keeps

## Main results

* `tallyVotes_toInt`: the loop computes the two powers
* `votingPowerOk_iff`: the check is a two-thirds majority
* `processProposal_votingPower`: so is the verdict of the handler
-/

namespace NexusNode

open Program

/-! ## Powers over the integers -/

/-- The power of all votes. -/
def totalPower (votes : List VoteInfo) : ℤ := (votes.map fun vote => vote.power.toInt).sum

/-- The power of the votes for the block. -/
def committedPower (votes : List VoteInfo) : ℤ :=
  totalPower (votes.filter fun vote => vote.blockIdFlag = .commit)

/-- No power is negative, and together they are at most CometBFT's `MaxTotalVotingPower`. -/
structure VotesBounded (votes : List VoteInfo) : Prop where
  nonneg : ∀ vote ∈ votes, 0 ≤ vote.power
  bounded : totalPower votes ≤ (2 ^ 63 - 1) / 8

theorem totalPower_append (votes votes' : List VoteInfo) :
    totalPower (votes ++ votes') = totalPower votes + totalPower votes' := by
  simp [totalPower]

theorem totalPower_singleton (vote : VoteInfo) : totalPower [vote] = vote.power.toInt := by
  simp [totalPower]

theorem totalPower_nonneg {votes : List VoteInfo} (h : ∀ vote ∈ votes, 0 ≤ vote.power) :
    0 ≤ totalPower votes := by
  refine List.sum_nonneg fun x hx => ?_
  obtain ⟨vote, hvote, rfl⟩ := List.mem_map.mp hx
  exact Int64.le_iff_toInt_le.mp (h vote hvote)

theorem committedPower_append (votes votes' : List VoteInfo) :
    committedPower (votes ++ votes') = committedPower votes + committedPower votes' := by
  unfold committedPower
  rw [List.filter_append, totalPower_append]

theorem committedPower_nonneg {votes : List VoteInfo} (h : ∀ vote ∈ votes, 0 ≤ vote.power) :
    0 ≤ committedPower votes :=
  totalPower_nonneg fun vote hvote => h vote (List.mem_filter.mp hvote).1

theorem committedPower_le_totalPower {votes : List VoteInfo}
    (h : ∀ vote ∈ votes, 0 ≤ vote.power) : committedPower votes ≤ totalPower votes := by
  induction votes with
  | nil => exact le_rfl
  | cons vote votes ih =>
    obtain ⟨hvote, hvotes⟩ := List.forall_mem_cons.mp h
    have hpower : 0 ≤ vote.power.toInt := Int64.le_iff_toInt_le.mp hvote
    have hrest := ih hvotes
    rw [← List.singleton_append, committedPower_append, totalPower_append, totalPower_singleton]
    have hone : committedPower [vote] ≤ vote.power.toInt := by
      by_cases hflag : vote.blockIdFlag = .commit
      · simp [committedPower, totalPower, hflag]
      · simpa [committedPower, totalPower, hflag] using hpower
    omega

/-- The limit holds of what has been added up so far. -/
theorem VotesBounded.of_append {votes votes' : List VoteInfo} (h : VotesBounded (votes ++ votes')) :
    VotesBounded votes := by
  obtain ⟨hnonneg, hbounded⟩ := h
  obtain ⟨hfirst, hsecond⟩ := List.forall_mem_append.mp hnonneg
  have hrest := totalPower_nonneg hsecond
  rw [totalPower_append] at hbounded
  exact ⟨hfirst, by omega⟩

/-! ## The loop and the comparison -/

theorem tallyVotes_concat (votes : List VoteInfo) (vote : VoteInfo) :
    tallyVotes (votes ++ [vote]) =
      ((tallyVotes votes).1 + vote.power,
        if vote.blockIdFlag = .commit then (tallyVotes votes).2 + vote.power
        else (tallyVotes votes).2) := by
  unfold tallyVotes
  rw [List.foldl_append]
  rfl

/-- **The running sums do not wrap around.** -/
theorem tallyVotes_toInt {votes : List VoteInfo} (h : VotesBounded votes) :
    (tallyVotes votes).1.toInt = totalPower votes ∧
      (tallyVotes votes).2.toInt = committedPower votes := by
  -- induction from the end: the loop adds the last vote to the sums of the others
  induction votes using List.reverseRecOn with
  | nil => exact ⟨rfl, rfl⟩
  | append_singleton votes vote ih =>
    have hbefore := h.of_append
    obtain ⟨htotal, hcommitted⟩ := ih hbefore
    have hnonneg := totalPower_nonneg hbefore.nonneg
    have hpower : 0 ≤ vote.power.toInt := Int64.le_iff_toInt_le.mp (h.nonneg vote (by simp))
    have hbound := h.bounded
    rw [totalPower_append, totalPower_singleton] at hbound
    have hle := committedPower_le_totalPower hbefore.nonneg
    have hlow := committedPower_nonneg hbefore.nonneg
    rw [tallyVotes_concat, totalPower_append, totalPower_singleton, committedPower_append]
    constructor
    · have hfits : Fits ((tallyVotes votes).1.toInt + vote.power.toInt) := by
        rw [htotal]
        exact ⟨by omega, by omega⟩
      rw [toInt_add_of_fits hfits, htotal]
    · by_cases hflag : vote.blockIdFlag = .commit
      · have hfits : Fits ((tallyVotes votes).2.toInt + vote.power.toInt) := by
          rw [hcommitted]
          exact ⟨by omega, by omega⟩
        have hone : committedPower [vote] = vote.power.toInt := by
          simp [committedPower, totalPower, hflag]
        rw [if_pos hflag, toInt_add_of_fits hfits, hcommitted, hone]
      · have hone : committedPower [vote] = 0 := by simp [committedPower, totalPower, hflag]
        rw [if_neg hflag, hcommitted, hone, add_zero]

/-- The doubled total does not wrap around either. -/
theorem tallyVotes_double {votes : List VoteInfo} (h : VotesBounded votes) :
    ((tallyVotes votes).1 * 2).toInt = 2 * totalPower votes := by
  have hbound := h.bounded
  have hnonneg := totalPower_nonneg h.nonneg
  have hfits : Fits ((tallyVotes votes).1.toInt * (2 : Int64).toInt) := by
    rw [(tallyVotes_toInt h).1, show (2 : Int64).toInt = 2 from rfl]
    exact ⟨by omega, by omega⟩
  rw [toInt_mul_of_fits hfits, (tallyVotes_toInt h).1, show (2 : Int64).toInt = 2 from rfl]
  exact mul_comm _ _

/-- **The check is a two-thirds majority**: truncating two thirds of the total does not change
the comparison. -/
theorem votingPowerOk_iff {votes : List VoteInfo} (h : VotesBounded votes) :
    votingPowerOk votes = true ↔ 2 * totalPower votes < 3 * committedPower votes := by
  have hnonneg := totalPower_nonneg h.nonneg
  have hquotient : ((tallyVotes votes).1 * 2 / 3).toInt = 2 * totalPower votes / 3 := by
    rw [Int64.toInt_div_of_ne_right _ _ (by decide), tallyVotes_double h,
      show (3 : Int64).toInt = 3 from rfl]
    exact Int.tdiv_eq_ediv_of_nonneg (by omega)
  unfold votingPowerOk
  simp only [Bool.not_eq_true', decide_eq_false_iff_not, Int64.le_iff_toInt_le, hquotient,
    (tallyVotes_toInt h).2]
  omega

/-! ## The verdict of the handler -/

theorem validateMsgAllowed_ne_votingPower (tx : Tx) :
    validateMsgAllowed tx ≠ .error .votingPower := by
  unfold validateMsgAllowed
  split
  · simp
  · split_ifs <;> simp
  · simp

theorem validateTx_ne_votingPower (p : Platform) (tx : Tx) :
    validateTx p tx ≠ .error .votingPower := by
  unfold validateTx
  split_ifs
  · simp
  · split
    · simp
    · split
      · simp
      · split_ifs <;> simp

theorem parseTx_ne_votingPower (p : Platform) (raw : Bytes) :
    parseTx p raw ≠ .error .votingPower := by
  unfold parseTx
  split
  · simp
  · next tx _ =>
    intro h
    cases hallowed : validateMsgAllowed tx with
    | error e =>
      rw [hallowed] at h
      obtain rfl := Except.error.inj h
      exact validateMsgAllowed_ne_votingPower tx hallowed
    | ok u =>
      rw [hallowed] at h
      cases hvalid : (if tx.isEVM then validateTx p tx else .ok ()) with
      | error e =>
        rw [hvalid] at h
        obtain rfl := Except.error.inj h
        split_ifs at hvalid
        exact validateTx_ne_votingPower p tx hvalid
      | ok u =>
        rw [hvalid] at h
        cases h

/-- The loop over the transactions has reasons of its own to refuse a block. -/
theorem scanTx_ne_votingPower (p : Platform) (maxCosmosTxs : Int) (n i : ℕ) (s : Scan)
    (raw : Bytes) : scanTx p maxCosmosTxs n i s raw ≠ .error .votingPower := by
  unfold scanTx
  by_cases hlen : maxTxSize < raw.length
  · rw [if_pos hlen]
    simp
  rw [if_neg hlen]
  have hparse := parseTx_ne_votingPower p raw
  cases hq : parseTx p raw with
  | error e =>
    rw [hq] at hparse
    simpa using hparse
  | ok parsed =>
    dsimp only
    split_ifs
    · simp
    · simp
    · split <;> simp
    · simp
    · simp

theorem scanTxs_ne_votingPower (p : Platform) (maxCosmosTxs : Int) (n i : ℕ) (s : Scan)
    (txs : List Bytes) : scanTxs p maxCosmosTxs n i s txs ≠ .error .votingPower := by
  induction txs generalizing i s with
  | nil => simp [scanTxs]
  | cons raw txs ih =>
    have hfirst := scanTx_ne_votingPower p maxCosmosTxs n i s raw
    unfold scanTxs
    cases hs : scanTx p maxCosmosTxs n i s raw with
    | error e =>
      rw [hs] at hfirst
      exact hfirst
    | ok t => exact ih (i + 1) t

section Handler

variable (router : Option ProposalHandler) (p : Platform) (maxCosmosTxs : Int) (ctx : SdkContext)
  (req : RequestProcessProposal) (store : Store)

/-- Past the first block, the handler refuses a block with transactions for its votes exactly
when they fail the check. -/
theorem makeProcessProposalHandler_votingPower_iff (hheight : req.height ≠ 1)
    (htxs : req.txs ≠ []) :
    makeProcessProposalHandler router p maxCosmosTxs ctx req store = .ok (.reject .votingPower) ↔
      votingPowerOk req.votes = false := by
  unfold makeProcessProposalHandler
  rw [if_neg hheight, if_neg (by simpa using htxs)]
  cases hv : votingPowerOk req.votes with
  | false => simp
  | true =>
    simp only [not_true_eq_false, if_false, Bool.true_eq_false, iff_false]
    have hscan := scanTxs_ne_votingPower p maxCosmosTxs req.txs.length 0 ⟨none, 0⟩ req.txs
    unfold scanBlock
    split
    · next e he =>
      rw [he] at hscan
      simpa using hscan
    · split
      · simp
      · split <;> simp

/-- **The commit check.** Past the first block, with powers within the limit of CometBFT, the
sums that the handler keeps are those of the integers after every vote, the doubled total is
exact, and a block with transactions is refused for its votes exactly when the committed power is
not more than two thirds of the total. A commit without power is refused with any block. -/
theorem processProposal_votingPower (hheight : req.height ≠ 1) (h : VotesBounded req.votes) :
    (∀ votes, votes <+: req.votes → (tallyVotes votes).1.toInt = totalPower votes ∧
      (tallyVotes votes).2.toInt = committedPower votes) ∧
    ((tallyVotes req.votes).1 * 2).toInt = 2 * totalPower req.votes ∧
    (votingPowerOk req.votes = true ↔ 2 * totalPower req.votes < 3 * committedPower req.votes) ∧
    (req.txs ≠ [] →
      (makeProcessProposalHandler router p maxCosmosTxs ctx req store ≠
          .ok (.reject .votingPower) ↔
        2 * totalPower req.votes < 3 * committedPower req.votes)) ∧
    (totalPower req.votes = 0 →
      ∃ reason, makeProcessProposalHandler router p maxCosmosTxs ctx req store =
        .ok (.reject reason)) := by
  refine ⟨?_, tallyVotes_double h, votingPowerOk_iff h, fun htxs => ?_, fun hzero => ?_⟩
  · rintro votes ⟨rest, hrest⟩
    rw [← hrest] at h
    exact tallyVotes_toInt h.of_append
  · rw [ne_eq, makeProcessProposalHandler_votingPower_iff router p maxCosmosTxs ctx req store
      hheight htxs, Bool.not_eq_false, votingPowerOk_iff h]
  · by_cases htxs : req.txs = []
    · refine ⟨.noTransactions, ?_⟩
      simp [makeProcessProposalHandler, hheight, htxs]
    · refine ⟨.votingPower, ?_⟩
      rw [makeProcessProposalHandler_votingPower_iff router p maxCosmosTxs ctx req store hheight
        htxs, Bool.eq_false_iff, ne_eq, votingPowerOk_iff h]
      have hle := committedPower_le_totalPower h.nonneg
      omega

end Handler

open Wire in
/-- Exactly two thirds are not enough, whatever the router and the transaction. -/
theorem processProposal_votingPower_thirds :
    VotesBounded [⟨2, .commit⟩, ⟨1, .absent⟩] ∧
      makeProcessProposalHandler none (samplePlatform (samplePayload []) []) 1
          (sampleCtx .processProposal) ⟨2, [[]], [⟨2, .commit⟩, ⟨1, .absent⟩]⟩ sampleStore =
        .ok (.reject .votingPower) := by
  have hbounded : VotesBounded [⟨2, .commit⟩, ⟨1, .absent⟩] := ⟨by decide, by decide⟩
  refine ⟨hbounded, ?_⟩
  obtain ⟨-, -, -, hverdict, -⟩ := processProposal_votingPower none
    (samplePlatform (samplePayload []) []) 1 (sampleCtx .processProposal)
    ⟨2, [[]], [⟨2, .commit⟩, ⟨1, .absent⟩]⟩ sampleStore (by decide) hbounded
  have hiff := hverdict (by simp)
  by_contra hne
  exact absurd (hiff.mp hne) (by decide)

end NexusNode

import NexusNode.App.Network

/-!
# The clock of the execution chain

The timestamp of an execution block follows the block time, but never stands still: blocks of one
second push the clock ahead, and it runs one second a block until the block time has caught up.
Inside a configured window the timestamp is set by the height instead. So the timestamp at a
height depends on all blocks since the clock was last set, by the genesis or by the window.

## Main definitions

* `Config.unixTime`: the time a block asks for
* `ClockSet`: where the clock is set
* `ClockAt`: the clock at a height

## Main results

* `network_clock`: the timestamp of every node at every height
* `network_clock_exact_iff`: when the timestamps are the block times
-/

namespace NexusNode

open Program Proc

/-! ## One block -/

/-- The time that a block asks for outside the window, modulo `2 ^ 64`. -/
def Config.unixTime (cfg : Config) (hdr : Header) : UInt64 :=
  hdr.time.toUInt64 +
    if cfg.useBlockTimestamp.any fun w => w.stopBlockHeight.any (· ≤ hdr.height.toUInt64) then
      cfg.unixTimestampOffset
    else 0

section OneBlock

variable {cfg : Config} {hdr : Header} {previous timestamp : UInt64}

theorem calculateTimestamp_of_window {w : UseBlockTimestamp}
    (hw : cfg.window hdr.height.toUInt64 = some w) :
    calculateTimestamp cfg hdr.time hdr.height.toUInt64 previous =
      hdr.height.toUInt64 + w.offset := by
  obtain ⟨hcfg, hin⟩ := Option.filter_eq_some_iff.mp hw
  simp [calculateTimestamp, hcfg, hin]

theorem calculateTimestamp_of_no_window (hw : cfg.window hdr.height.toUInt64 = none) :
    calculateTimestamp cfg hdr.time hdr.height.toUInt64 previous =
      afterPrevious (cfg.unixTime hdr) previous := by
  unfold calculateTimestamp Config.unixTime
  cases hcfg : cfg.useBlockTimestamp with
  | none => simp
  | some w =>
    have hout : ¬ w.contains hdr.height.toUInt64 := by
      simpa [Config.window, hcfg, Option.filter] using hw
    simp [hout]

/-- Outside the window the clock takes the time of the block, or moves by one second. -/
theorem toNat_afterPrevious (hnewer : previous < afterPrevious timestamp previous) :
    (afterPrevious timestamp previous).toNat = max (previous.toNat + 1) timestamp.toNat := by
  have hroom := (lt_afterPrevious_iff timestamp previous).mp hnewer
  unfold afterPrevious
  split_ifs with hle
  · rw [UInt64.le_iff_toNat_le] at hle
    rw [UInt64.toNat_add]
    have hone : (1 : UInt64).toNat = 1 := rfl
    omega
  · rw [UInt64.le_iff_toNat_le] at hle
    omega

end OneBlock

/-! ## The clock since it was last set -/

/-- From the height `m` on the clock runs from `c`: the genesis sets it, and every block in the
window does. -/
inductive ClockSet (cfg : Config) (b₀ : BlockState) (ds : List Block) : ℕ → ℕ → Prop
  | genesis : ClockSet cfg b₀ ds 1 b₀.timestamp.toNat
  | window {j : ℕ} {b : Block} {w : UseBlockTimestamp} : 1 ≤ j → ds[j]? = some b →
      cfg.window b.header.height.toUInt64 = some w →
      ClockSet cfg b₀ ds (j + 1) (b.header.height.toUInt64 + w.offset).toNat

/-- At the height `h` the clock shows `t`: the largest of what it shows when it only runs since
it was set, and when it only runs since one of the blocks after that. -/
structure ClockAt (cfg : Config) (b₀ : BlockState) (ds : List Block) (h t m c : ℕ) : Prop where
  set : ClockSet cfg b₀ ds m c
  le : m ≤ h
  free : ∀ j b, m ≤ j → j < h → ds[j]? = some b → cfg.window b.header.height.toUInt64 = none
  shows : ∀ x, t ≤ x ↔ c + (h - m) ≤ x ∧ ∀ j b, m ≤ j → j < h → ds[j]? = some b →
    (cfg.unixTime b.header).toNat + (h - 1 - j) ≤ x

section Clock

variable {cfg : Config} {b₀ : BlockState} {ds : List Block} {h m c : ℕ} {b : Block}

theorem ClockSet.pos (hset : ClockSet cfg b₀ ds m c) : 1 ≤ m := by
  cases hset with
  | genesis => exact Nat.le_refl 1
  | window => exact Nat.succ_pos _

/-- Where the clock is set, it shows what it is set to. -/
theorem ClockSet.clockAt (hset : ClockSet cfg b₀ ds m c) : ClockAt cfg b₀ ds m c m c where
  set := hset
  le := Nat.le_refl m
  free j b hmj hjm _ := absurd hjm (Nat.not_lt.mpr hmj)
  shows x := by
    refine ⟨fun hx => ⟨by omega, fun j b hmj hjm _ => absurd hjm (Nat.not_lt.mpr hmj)⟩, ?_⟩
    rintro ⟨hx, -⟩
    omega

/-- One block outside the window. -/
theorem ClockAt.tick {t : ℕ} (hclock : ClockAt cfg b₀ ds h t m c) (hb : ds[h]? = some b)
    (hw : cfg.window b.header.height.toUInt64 = none) :
    ClockAt cfg b₀ ds (h + 1) (max (t + 1) (cfg.unixTime b.header).toNat) m c where
  set := hclock.set
  le := Nat.le_succ_of_le hclock.le
  free j b' hmj hjh hj := by
    rcases Nat.lt_succ_iff_lt_or_eq.mp hjh with hlt | rfl
    · exact hclock.free j b' hmj hlt hj
    · rwa [← Option.some.inj (hb.symm.trans hj)]
  shows x := by
    have hle := hclock.le
    rw [Nat.max_le]
    constructor
    · rintro ⟨ht, hx⟩
      obtain ⟨hc, hblocks⟩ := (hclock.shows (x - 1)).mp (by omega)
      refine ⟨by omega, fun j b' hmj hjh hj => ?_⟩
      rcases Nat.lt_succ_iff_lt_or_eq.mp hjh with hlt | rfl
      · have := hblocks j b' hmj hlt hj
        omega
      · rw [← Option.some.inj (hb.symm.trans hj)]
        omega
    · rintro ⟨hc, hblocks⟩
      have hlast := hblocks h b hle (Nat.lt_succ_self h) hb
      refine ⟨?_, by omega⟩
      have ht : t ≤ x - 1 := by
        refine (hclock.shows (x - 1)).mpr ⟨by omega, fun j b' hmj hjh hj => ?_⟩
        have := hblocks j b' hmj (Nat.lt_succ_of_lt hjh) hj
        omega
      omega

/-- One valid block. -/
theorem ClockAt.step {t : UInt64} (hclock : ClockAt cfg b₀ ds h t.toNat m c)
    (hb : ds[h]? = some b) {k : Keeper} {payload : ExecutableData} {state : BlockState}
    (hcfg : ∀ time height previous, calculateTimestamp k.config time height previous =
      calculateTimestamp cfg time height previous)
    (hstate : state.timestamp = t) (hvalid : PayloadValid k b.header state payload) :
    ∃ m' c', ClockAt cfg b₀ ds (h + 1) payload.timestamp.toNat m' c' := by
  have htimestamp := hvalid.timestamp
  have hnewer := hvalid.newer
  rw [hcfg, hstate] at htimestamp
  rw [hstate] at hnewer
  cases hw : cfg.window b.header.height.toUInt64 with
  | some w =>
    rw [htimestamp, calculateTimestamp_of_window hw]
    exact ⟨h + 1, _, (ClockSet.window (hclock.set.pos.trans hclock.le) hb hw).clockAt⟩
  | none =>
    rw [calculateTimestamp_of_no_window hw] at htimestamp
    rw [htimestamp] at hnewer ⊢
    rw [toNat_afterPrevious hnewer]
    exact ⟨m, c, hclock.tick hb hw⟩

end Clock

/-! ## The clock of the network -/

section Network

variable {I R : Type} {net : Network I R} {s₀ : MultiStore R} {b₀ : BlockState}

theorem exists_clockAt {ds : List Block}
    (hdue : AllDue (nextState net.modules) s₀ net.replication ds)
    (hs₀ : s₀.evm.blockState = some b₀) {h : ℕ} (hpos : 1 ≤ h) (hh : h ≤ ds.length)
    {s : MultiStore R} (hs : replay (nextState net.modules) s₀ (ds.take h) = some s) :
    ∃ b m c, s.evm.blockState = some b ∧
      ClockAt net.rules.config b₀ ds h b.timestamp.toNat m c := by
  induction h, hpos using Nat.le_induction generalizing s with
  | base =>
    have hb := List.getElem?_eq_getElem (Nat.lt_of_succ_le hh)
    obtain ⟨t, ht⟩ := hdue 0 _ hb
    rw [replay_take_succ _ _ hb, ht.state] at hs
    obtain rfl : s₀ = t := Option.some.inj ht.state
    rcases decided_cases ht with ⟨-, hstate⟩ | ⟨hpos, -⟩
    · exact ⟨b₀, 1, _, (hstate s hs).trans hs₀, ClockSet.genesis.clockAt⟩
    · exact absurd hpos (Nat.not_succ_le_zero 0)
  | succ h hpos ih =>
    have hb := List.getElem?_eq_getElem (Nat.lt_of_succ_le hh)
    obtain ⟨t, ht⟩ := hdue h _ hb
    rw [replay_take_succ _ _ hb, ht.state] at hs
    obtain ⟨b, m, c, hbs, hclock⟩ := ih (Nat.le_of_succ_le hh) ht.state
    rcases decided_cases ht with
      ⟨rfl, -⟩ | ⟨-, i, state, payload, hstate, -, hvalid, hnext⟩
    · exact absurd hpos (Nat.not_succ_le_zero 0)
    · have hsame : state.timestamp = b.timestamp := by
        rw [Option.some.inj (hstate.symm.trans hbs)]
      obtain ⟨m', c', hclock'⟩ := hclock.step (k := net.keeper i) hb (fun _ _ _ => rfl) hsame
        hvalid
      exact ⟨payload.blockState, m', c', hnext s hs, hclock'⟩

/-- Every decided block after the first has a payload, which is valid after that of the block
before it, or after the genesis block. -/
theorem decided_payload {ds : List Block}
    (hdue : AllDue (nextState net.modules) s₀ net.replication ds)
    (hs₀ : s₀.evm.blockState = some b₀) {j : ℕ} {b : Block} (hb : ds[j + 1]? = some b) :
    ∃ i state payload, b.payload net.rules.platform = some payload ∧
      PayloadValid (net.keeper i) b.header state payload ∧
      (j = 0 ∧ state = b₀ ∨ 1 ≤ j ∧ ∃ b' payload', ds[j]? = some b' ∧
        b'.payload net.rules.platform = some payload' ∧ state = payload'.blockState) := by
  obtain ⟨s, hs⟩ := hdue (j + 1) b hb
  rcases decided_cases hs with ⟨hzero, -⟩ | ⟨-, i, state, payload, hstate, hpayload, hvalid, -⟩
  · exact absurd hzero (Nat.succ_ne_zero j)
  refine ⟨i, state, payload, hpayload, hvalid, ?_⟩
  have hj : j < ds.length := Nat.lt_of_succ_lt (List.getElem?_eq_some_iff.mp hb).1
  have hb' := List.getElem?_eq_getElem hj
  obtain ⟨t, ht⟩ := hdue j _ hb'
  have hnext := hs.state
  rw [replay_take_succ _ _ hb', ht.state] at hnext
  rcases decided_cases ht with
    ⟨rfl, hsame⟩ | ⟨hpos, _, _, payload', -, hpayload', -, hset⟩
  · obtain rfl : s₀ = t := Option.some.inj ht.state
    exact .inl ⟨rfl, Option.some.inj (hstate.symm.trans ((hsame s hnext).trans hs₀))⟩
  · exact .inr ⟨hpos, _, payload', hb', hpayload',
      Option.some.inj (hstate.symm.trans (hset s hnext))⟩

/-- A payload carries the time of its block exactly when that is ahead of the clock. -/
theorem PayloadValid.exact_iff {k : Keeper} {hdr : Header} {state : BlockState}
    {payload : ExecutableData} (hvalid : PayloadValid k hdr state payload)
    (hcfg : k.config.useBlockTimestamp = none) :
    payload.timestamp = hdr.time.toUInt64 ↔ state.timestamp < hdr.time.toUInt64 := by
  have htimestamp : payload.timestamp = afterPrevious hdr.time.toUInt64 state.timestamp := by
    rw [hvalid.timestamp, calculateTimestamp, hcfg]
  constructor
  · intro h
    rw [← h]
    exact hvalid.newer
  · intro h
    rw [htimestamp, afterPrevious, if_neg (UInt64.not_le.mpr h)]

variable [DecidableEq I] {l₀ : I → Outside}
  {calls : List (Call (NetAction I Block) Unit (Net I Block (MultiStore R) Outside))}
  {n : Net I Block (MultiStore R) Outside}

/-- **The timestamp of every node.** With engines that refuse nothing, after the first block the
timestamp that a node has stored is the largest of what the clock shows when it runs one second a
block since it was last set, by the genesis or by the window, and since the time that each of the
blocks after that asks for. -/
theorem network_clock (hlenient : net.Lenient) (hrun : net.Runs s₀ l₀ calls n)
    (hs₀ : s₀.evm.blockState = some b₀) (i : I) (hpos : 1 ≤ (n.replica i).height) :
    ∃ b m c, (n.replica i).committed.evm.blockState = some b ∧
      ClockAt net.rules.config b₀ n.decided (n.replica i).height b.timestamp.toNat m c := by
  have hreplays := net.runs_replays hlenient hrun
  obtain ⟨hheight, hcommitted, -⟩ := hreplays.replica i
  exact exists_clockAt hreplays.due hs₀ hpos hheight hcommitted

open Wire in
/-- The clock of the two nodes after two blocks. -/
theorem network_clock_sample :
    ∃ calls n, sampleNetwork.Runs sampleApp (fun _ => ⟨[], 0⟩) calls n ∧
      ∀ i, ∃ b m c, (n.replica i).committed.evm.blockState = some b ∧
        ClockAt defaultConfig ⟨hexToHash "0x01", 0, 0⟩ n.decided 2 b.timestamp.toNat m c := by
  obtain ⟨calls, n, hrun, -, hheight⟩ := exists_sample_run
  refine ⟨calls, n, hrun, fun i => ?_⟩
  have hclock := network_clock lenient_sampleNetwork hrun rfl i (by rw [hheight i]; decide)
  rwa [hheight i] at hclock

/-- **When the clock is exact.** With engines that refuse nothing and without a window, the
payloads of the decided blocks carry the times of their blocks exactly when these increase from
block to block, beginning after the time of the genesis block. -/
theorem network_clock_exact_iff (hlenient : net.Lenient) (hrun : net.Runs s₀ l₀ calls n)
    (hs₀ : s₀.evm.blockState = some b₀) (hcfg : net.rules.config.useBlockTimestamp = none) :
    (∀ j b payload, 1 ≤ j → n.decided[j]? = some b →
        b.payload net.rules.platform = some payload →
        payload.timestamp = b.header.time.toUInt64) ↔
      (∀ b, n.decided[1]? = some b → b₀.timestamp < b.header.time.toUInt64) ∧
        ∀ j b b', 1 ≤ j → n.decided[j]? = some b → n.decided[j + 1]? = some b' →
          b.header.time.toUInt64 < b'.header.time.toUInt64 := by
  have hdue := (net.runs_replays hlenient hrun).due
  constructor
  · intro hexact
    have hahead {j : ℕ} {b : Block} (hb : n.decided[j + 1]? = some b) :
        (j = 0 → b₀.timestamp < b.header.time.toUInt64) ∧ ∀ b', 1 ≤ j →
          n.decided[j]? = some b' → b'.header.time.toUInt64 < b.header.time.toUInt64 := by
      obtain ⟨i, state, payload, hpayload, hvalid, hbefore⟩ := decided_payload hdue hs₀ hb
      have hlt := (hvalid.exact_iff hcfg).mp
        (hexact (j + 1) b payload (Nat.le_add_left 1 j) hb hpayload)
      rcases hbefore with ⟨rfl, rfl⟩ | ⟨hpos, b', payload', hb', hpayload', rfl⟩
      · exact ⟨fun _ => hlt, fun b' hpos _ => absurd hpos (Nat.not_succ_le_zero 0)⟩
      · refine ⟨fun hzero => absurd hzero (Nat.one_le_iff_ne_zero.mp hpos), fun b'' _ hb'' => ?_⟩
        obtain rfl := Option.some.inj (hb'.symm.trans hb'')
        rw [← hexact j b' payload' hpos hb' hpayload']
        exact hlt
    exact ⟨fun b hb => (hahead hb).1 rfl, fun j b b' hpos hb hb' => (hahead hb').2 b hpos hb⟩
  · rintro ⟨hfirst, hmono⟩ j b payload hpos hb hpayload
    obtain ⟨j, rfl⟩ := Nat.exists_eq_add_one_of_ne_zero (Nat.one_le_iff_ne_zero.mp hpos)
    induction j generalizing b payload with
    | zero =>
      obtain ⟨i, state, q, hq, hvalid, ⟨-, rfl⟩ | ⟨hle, -⟩⟩ := decided_payload hdue hs₀ hb
      · obtain rfl := Option.some.inj (hq.symm.trans hpayload)
        exact (hvalid.exact_iff hcfg).mpr (hfirst b hb)
      · exact absurd hle (Nat.not_succ_le_zero 0)
    | succ j ih =>
      obtain ⟨i, state, q, hq, hvalid, ⟨hzero, -⟩ | ⟨hle, b', payload', hb', hp', rfl⟩⟩ :=
        decided_payload hdue hs₀ hb
      · exact absurd hzero (Nat.succ_ne_zero j)
      · obtain rfl := Option.some.inj (hq.symm.trans hpayload)
        refine (hvalid.exact_iff hcfg).mpr ?_
        have hbefore : payload'.timestamp = b'.header.time.toUInt64 := ih b' payload' hp' hle hb'
        have hlt := hmono (j + 1) b' b hle hb' hb
        rw [← hbefore] at hlt
        exact hlt

open Wire in
/-- The second block is ahead of the genesis block. -/
theorem network_clock_exact_iff_sample :
    ∃ calls n, sampleNetwork.Runs sampleApp (fun _ => ⟨[], 0⟩) calls n ∧
      n.decided = [firstBlock, secondBlock] ∧
      ∀ payload, secondBlock.payload sampleNetwork.rules.platform = some payload →
        payload.timestamp = 1700000000 := by
  obtain ⟨calls, n, hrun, hdecided, -⟩ := exists_sample_run
  refine ⟨calls, n, hrun, hdecided, fun payload hpayload => ?_⟩
  refine (network_clock_exact_iff lenient_sampleNetwork hrun rfl rfl).mpr ⟨?_, ?_⟩ 1 secondBlock
    payload (Nat.le_refl 1) (by rw [hdecided]; rfl) hpayload
  · intro b hb
    rw [hdecided] at hb
    obtain rfl := Option.some.inj hb
    decide
  · intro j b b' hpos _ hb'
    have hlt := (List.getElem?_eq_some_iff.mp hb').1
    rw [hdecided] at hlt
    exact absurd hlt (Nat.not_lt.mpr (Nat.succ_le_succ hpos))

end Network

end NexusNode

import Mathlib.Algebra.Group.Nat.Defs
import NexusNode.Evm.Types

/-!
# Fork schedule, node configuration and block timestamps

`ChainSpec` chooses the Engine API version by timestamp. `readConfig` turns the decoded
configuration file into the timestamp rule of the keeper, and `calculateTimestamp` applies the
rule: the block height plus an offset inside the configured window, the block time (plus an
offset past the window) outside it. Outside the window the result is moved behind the previous
timestamp, inside it is not.

## Main definitions

* `ChainSpec`, `ChainSpec.validate`: fork activation times and their order
* `readConfig`: the keeper configuration, or the panic of a malformed one
* `calculateTimestamp cfg blockTime blockHeight previousTimestamp`
* `TimestampRoom cfg blockHeight previousTimestamp`: the rule leaves room behind the previous
  timestamp

## Main results

* `readConfig_window_ordered`: an accepted window does not stop before it starts
* `lt_calculateTimestamp_iff`: the timestamp increases exactly when the rule leaves room
-/

namespace NexusNode

open Program

/-! ## The fork schedule -/

structure ChainSpec where
  pragueTimestamp : Option UInt64
  osakaTimestamp : Option UInt64
  amsterdamTimestamp : Option UInt64
  deriving DecidableEq, Repr

/-- A fork that is active without the one before it, or before it. -/
inductive ChainSpecError where
  | osakaWithoutPrague
  | osakaBeforePrague (osaka prague : UInt64)
  | amsterdamWithoutOsaka
  | amsterdamBeforeOsaka (amsterdam osaka : UInt64)
  deriving DecidableEq, Repr

def ChainSpecError.text : ChainSpecError → String
  | .osakaWithoutPrague =>
    "osaka_timestamp is set but prague_timestamp is required (forks activate in order)"
  | .osakaBeforePrague osaka prague =>
    s!"osaka_timestamp ({osaka}) must be >= prague_timestamp ({prague})"
  | .amsterdamWithoutOsaka =>
    "amsterdam_timestamp is set but osaka_timestamp is required (forks activate in order)"
  | .amsterdamBeforeOsaka amsterdam osaka =>
    s!"amsterdam_timestamp ({amsterdam}) must be >= osaka_timestamp ({osaka})"

namespace ChainSpec

/-- One step of `Validate`: a fork needs its predecessor, at or before its own time. -/
def checkFork (fork before : Option UInt64) (missing : ChainSpecError)
    (early : UInt64 → UInt64 → ChainSpecError) : Except ChainSpecError Unit :=
  match fork with
  | none => .ok ()
  | some f =>
    match before with
    | none => .error missing
    | some b => if f < b then .error (early f b) else .ok ()

def validate (c : ChainSpec) : Except ChainSpecError Unit := do
  checkFork c.osakaTimestamp c.pragueTimestamp .osakaWithoutPrague .osakaBeforePrague
  checkFork c.amsterdamTimestamp c.osakaTimestamp .amsterdamWithoutOsaka .amsterdamBeforeOsaka

/-- A fork is active at and after its time, when it has one. -/
def isActive (fork : Option UInt64) (timestamp : UInt64) : Bool :=
  match fork with
  | none => false
  | some f => f ≤ timestamp

def isPragueActive (c : ChainSpec) (timestamp : UInt64) : Bool :=
  isActive c.pragueTimestamp timestamp

def isOsakaActive (c : ChainSpec) (timestamp : UInt64) : Bool :=
  isActive c.osakaTimestamp timestamp

def isAmsterdamActive (c : ChainSpec) (timestamp : UInt64) : Bool :=
  isActive c.amsterdamTimestamp timestamp

def getPayloadEngineRPCVersion (c : ChainSpec) (timestamp : UInt64) : ℕ :=
  if c.isOsakaActive timestamp then 5
  else if c.isPragueActive timestamp then 4
  else 3

def newPayloadEngineRPCVersion (c : ChainSpec) (timestamp : UInt64) : ℕ :=
  if c.isAmsterdamActive timestamp then 5
  else if c.isPragueActive timestamp then 4
  else 3

end ChainSpec

/-! ## The configuration file -/

structure RawUseBlockTimestamp where
  startBlockHeight : String
  offset : String
  stopBlockHeight : String

/-- The decoded configuration file, with its numbers still text. -/
structure RawConfig where
  suggestedFeeRecipient : String
  useBlockTimestamp : Option RawUseBlockTimestamp
  unixTimestampOffset : String

structure UseBlockTimestamp where
  startBlockHeight : UInt64
  offset : UInt64
  stopBlockHeight : Option UInt64
  deriving DecidableEq

structure Config where
  suggestedFeeRecipient : EthAddress
  useBlockTimestamp : Option UseBlockTimestamp
  unixTimestampOffset : UInt64
  deriving DecidableEq

/-- The two failures of `strconv.ParseUint`. -/
inductive NumError where
  | syntaxError
  | rangeError
  deriving DecidableEq

inductive ConfigError where
  | recipient (value : String)
  | offset (value : String) (e : NumError)
  | startBlockHeight (value : String) (e : NumError)
  | stopBlockHeight (value : String) (e : NumError)
  | stopBeforeStart (stop start : UInt64)
  | unixTimestampOffset (value : String) (e : NumError)
  deriving DecidableEq

def NumError.text (e : NumError) (value : String) : String :=
  "strconv.ParseUint: parsing \"" ++ value ++ "\": " ++
    match e with
    | .syntaxError => "invalid syntax"
    | .rangeError => "value out of range"

def ConfigError.text : ConfigError → String
  | .recipient v => "could not decode recipient as hex: " ++ v
  | .offset v e => "could not decode use_block_timestamp.offset as int: " ++ v ++ ", " ++ e.text v
  | .startBlockHeight v e =>
    "could not decode use_block_timestamp.start_block_height as int: " ++ v ++ ", " ++ e.text v
  | .stopBlockHeight v e =>
    "could not decode use_block_timestamp.stop_block_height as int: " ++ v ++ ", " ++ e.text v
  | .stopBeforeStart stop start =>
    s!"use_block_timestamp.stop_block_height ({stop}) must be >= start_block_height ({start})"
  | .unixTimestampOffset v e =>
    "could not decode unix_timestamp_offset as int: " ++ v ++ ", " ++ e.text v

/-- The digit loop of `strconv.ParseUint(s, 10, 64)`. -/
def parseUintLoop : ℕ → Bytes → Except NumError ℕ
  | n, [] => .ok n
  | n, c :: cs =>
    -- only the digits 0 to 9: no sign, no underscore
    if c < 48 ∨ 57 < c then .error .syntaxError
    else
      let n' := n * 10 + (c.toNat - 48)
      if 2 ^ 64 ≤ n' then .error .rangeError else parseUintLoop n' cs

/-- The number that digits write in decimal, behind those of `n`. -/
def decimalValue (n : ℕ) (digits : Bytes) : ℕ := digits.foldl (fun n c => n * 10 + (c.toNat - 48)) n

theorem le_decimalValue (n : ℕ) (digits : Bytes) : n ≤ decimalValue n digits := by
  induction digits generalizing n with
  | nil => exact Nat.le_refl n
  | cons c digits ih =>
    have := ih (n * 10 + (c.toNat - 48))
    show n ≤ decimalValue (n * 10 + (c.toNat - 48)) digits
    omega

/-- **The loop reads decimals**: it takes digits whose number fits 64 bits, and no other text. -/
theorem parseUintLoop_eq_ok_iff {n v : ℕ} {digits : Bytes} (hn : n < 2 ^ 64) :
    parseUintLoop n digits = .ok v ↔
      (∀ c ∈ digits, 48 ≤ c ∧ c ≤ 57) ∧ decimalValue n digits < 2 ^ 64 ∧
        v = decimalValue n digits := by
  induction digits generalizing n with
  | nil =>
    have hnil : decimalValue n [] = n := rfl
    rw [hnil]
    constructor
    · intro h
      exact ⟨by simp, hn, (Except.ok.inj h).symm⟩
    · rintro ⟨-, -, rfl⟩
      rfl
  | cons c digits ih =>
    have hstep : decimalValue n (c :: digits) = decimalValue (n * 10 + (c.toNat - 48)) digits := rfl
    have hle := le_decimalValue (n * 10 + (c.toNat - 48)) digits
    unfold parseUintLoop
    dsimp only
    rw [hstep, List.forall_mem_cons]
    by_cases hc : c < 48 ∨ 57 < c
    · have hnot : ¬ (48 ≤ c ∧ c ≤ 57) := by
        rintro ⟨hlow, hhigh⟩
        exact hc.elim (UInt8.not_lt.mpr hlow) (UInt8.not_lt.mpr hhigh)
      simp [hc, hnot]
    · have hdigit : 48 ≤ c ∧ c ≤ 57 := by
        obtain ⟨hlow, hhigh⟩ := not_or.mp hc
        exact ⟨UInt8.not_lt.mp hlow, UInt8.not_lt.mp hhigh⟩
      rw [if_neg hc]
      by_cases hmax : 2 ^ 64 ≤ n * 10 + (c.toNat - 48)
      · rw [if_pos hmax]
        constructor
        · intro h
          cases h
        · rintro ⟨-, hlt, -⟩
          omega
      · rw [if_neg hmax, ih (Nat.lt_of_not_le hmax)]
        simp [hdigit]

/-- `strconv.ParseUint(s, 10, 64)` -/
def parseUint (s : String) : Except NumError UInt64 :=
  if goBytes s = [] then .error .syntaxError
  else (parseUintLoop 0 (goBytes s)).map UInt64.ofNat

/-- The digits of a number with its sign, which has to fit 64 bits. -/
def parseSigned (negative : Bool) (digits : Bytes) : Except NumError Int64 :=
  if digits = [] then .error .syntaxError
  else
    match parseUintLoop 0 digits with
    | .error e => .error e
    | .ok n =>
      if negative then
        if 2 ^ 63 < n then .error .rangeError else .ok (Int64.ofInt (-n))
      else if 2 ^ 63 ≤ n then .error .rangeError
      else .ok (Int64.ofNat n)

/-- `strconv.ParseInt(s, 10, 64)` -/
def parseInt (s : String) : Except NumError Int64 :=
  match goBytes s with
  | 43 :: digits => parseSigned false digits
  | 45 :: digits => parseSigned true digits
  | digits => parseSigned false digits

/-- The message of a failed `parseInt`. -/
def NumError.parseIntText (e : NumError) (value : String) : String :=
  "strconv.ParseInt: parsing \"" ++ value ++ "\": " ++
    match e with
    | .syntaxError => "invalid syntax"
    | .rangeError => "value out of range"

/-- An optional numeric field: zero when empty, a panic when malformed. -/
def parseUintField (s : String) (err : String → NumError → ConfigError) :
    Outcome ConfigError UInt64 :=
  if s = "" then .ok 0
  else
    match parseUint s with
    | .ok n => .ok n
    | .error e => .error (.panic (err s e))

/-- The stop height of the window: absent when the field is empty. -/
def parseStop (s : String) (stop start : UInt64) : Outcome ConfigError (Option UInt64) :=
  if s = "" then .ok none
  else if stop < start then .error (.panic (.stopBeforeStart stop start))
  else .ok (some stop)

def parseRecipient (s : String) : Outcome ConfigError EthAddress :=
  if s = "" then .ok (FixedBytes.ofBytes 20 [])
  else if isHexAddress s then .ok (hexToAddress s)
  else .error (.panic (.recipient s))

def parseUseBlockTimestamp (raw : RawUseBlockTimestamp) :
    Outcome ConfigError UseBlockTimestamp := do
  let offset ← parseUintField raw.offset .offset
  let start ← parseUintField raw.startBlockHeight .startBlockHeight
  let stop ← parseUintField raw.stopBlockHeight .stopBlockHeight
  -- an explicit 0 is a stop height, an empty field is none
  let stop ← parseStop raw.stopBlockHeight stop start
  return ⟨start, offset, stop⟩

/-- The window, when the file has one. -/
def parseWindow : Option RawUseBlockTimestamp → Outcome ConfigError (Option UseBlockTimestamp)
  | none => .ok none
  | some raw => some <$> parseUseBlockTimestamp raw

/-- `readConfig` after the file was decoded; `none` when no file is configured. -/
def readConfig : Option RawConfig → Outcome ConfigError Config
  | none => .ok ⟨FixedBytes.ofBytes 20 [], none, 0⟩
  | some raw => do
    let recipient ← parseRecipient raw.suggestedFeeRecipient
    let window ← parseWindow raw.useBlockTimestamp
    let unixOffset ← parseUintField raw.unixTimestampOffset .unixTimestampOffset
    return ⟨recipient, window, unixOffset⟩

/-- An accepted stop height is not below the start height. -/
theorem parseStop_le {s : String} {stop start : UInt64} {o : Option UInt64}
    (h : parseStop s stop start = .ok o) {t : UInt64} (ht : o = some t) : start ≤ t := by
  unfold parseStop at h
  split_ifs at h with h₁ h₂
  · obtain rfl := Except.ok.inj h
    simp at ht
  · obtain rfl := Except.ok.inj h
    obtain rfl := Option.some.inj ht
    exact UInt64.not_lt.mp h₂

/-- An accepted window does not stop before it starts. -/
theorem readConfig_window_ordered {raw : Option RawConfig} {cfg : Config}
    (h : readConfig raw = .ok cfg) {w : UseBlockTimestamp} (hw : cfg.useBlockTimestamp = some w)
    {stop : UInt64} (hs : w.stopBlockHeight = some stop) : w.startBlockHeight ≤ stop := by
  match raw with
  | none =>
    obtain rfl := Except.ok.inj h
    simp at hw
  | some ⟨recipient, window, unixOffset⟩ =>
    simp only [readConfig, except_bind_eq_ok_iff] at h
    obtain ⟨r, -, w', hw', u, -, h⟩ := h
    obtain rfl := Except.ok.inj h
    cases window with
    | none =>
      obtain rfl := Except.ok.inj hw'
      simp at hw
    | some rawWindow =>
      obtain rfl : w' = some w := hw
      simp only [parseWindow, parseUseBlockTimestamp, map_eq_pure_bind,
        except_bind_eq_ok_iff] at hw'
      obtain ⟨v, ⟨o, -, start, -, p, -, q, hq, hv⟩, hvw⟩ := hw'
      obtain rfl := Except.ok.inj hv
      obtain rfl := Option.some.inj (Except.ok.inj hvw)
      exact parseStop_le hq hs

/-! ## Block timestamps -/

/-- The fallback of the wall-clock branches: one past the previous timestamp when the
candidate is not behind it. -/
def afterPrevious (timestamp previousTimestamp : UInt64) : UInt64 :=
  if timestamp ≤ previousTimestamp then previousTimestamp + 1 else timestamp

/-- The block height lies in the window `[start, stop)`, unbounded without a stop height. -/
def UseBlockTimestamp.contains (w : UseBlockTimestamp) (blockHeight : UInt64) : Bool :=
  w.startBlockHeight ≤ blockHeight && w.stopBlockHeight.all fun stop => blockHeight < stop

/-- `Keeper.CalculateTimestamp`, with `blockTime` the seconds of `sdkCtx.BlockTime()`. -/
def calculateTimestamp (cfg : Config) (blockTime : Int64)
    (blockHeight previousTimestamp : UInt64) : UInt64 :=
  match cfg.useBlockTimestamp with
  | none => afterPrevious blockTime.toUInt64 previousTimestamp
  | some w =>
    -- inside the window the previous timestamp is not looked at
    if w.contains blockHeight then blockHeight + w.offset
    else
      -- the configured offset only applies past the window
      let unixOffset :=
        if w.stopBlockHeight.any fun stop => stop ≤ blockHeight then cfg.unixTimestampOffset else 0
      afterPrevious (blockTime.toUInt64 + unixOffset) previousTimestamp

/-- The window that holds the block height, if there is one. -/
def Config.window (cfg : Config) (blockHeight : UInt64) : Option UseBlockTimestamp :=
  cfg.useBlockTimestamp.filter fun w => w.contains blockHeight

/-- The timestamp rule leaves room behind the previous timestamp: inside the window the height
plus the offset (modulo `2 ^ 64`) must exceed it, outside it must not be the largest one. -/
def TimestampRoom (cfg : Config) (blockHeight previousTimestamp : UInt64) : Prop :=
  match cfg.window blockHeight with
  | some w => previousTimestamp < blockHeight + w.offset
  | none => previousTimestamp.toNat + 1 < 2 ^ 64

instance (cfg : Config) (h t : UInt64) : Decidable (TimestampRoom cfg h t) :=
  match hw : cfg.window h with
  | some w => decidable_of_iff (t < h + w.offset) (by simp [TimestampRoom, hw])
  | none => decidable_of_iff (t.toNat + 1 < 2 ^ 64) (by simp [TimestampRoom, hw])

/-- The fallback succeeds below the largest timestamp, and only there. -/
theorem lt_afterPrevious_iff (timestamp previous : UInt64) :
    previous < afterPrevious timestamp previous ↔ previous.toNat + 1 < 2 ^ 64 := by
  have hp := previous.toNat_lt
  have ht := timestamp.toNat_lt
  unfold afterPrevious
  split_ifs with h
  · -- one past the previous timestamp, unless that wraps around to zero
    rw [UInt64.lt_iff_toNat_lt, UInt64.toNat_add]
    have : (1 : UInt64).toNat = 1 := rfl
    omega
  · -- the candidate is later, and itself a machine number
    rw [UInt64.not_le, UInt64.lt_iff_toNat_lt] at h
    rw [UInt64.lt_iff_toNat_lt]
    omega

/-- **The timestamp increases exactly when the rule leaves room.** -/
theorem lt_calculateTimestamp_iff (cfg : Config) (blockTime : Int64) (height previous : UInt64) :
    previous < calculateTimestamp cfg blockTime height previous ↔
      TimestampRoom cfg height previous := by
  unfold calculateTimestamp TimestampRoom Config.window
  cases cfg.useBlockTimestamp with
  | none => exact lt_afterPrevious_iff _ _
  | some w =>
    by_cases hw : w.contains height
    · simp [Option.filter, hw]
    · simpa [Option.filter, hw] using lt_afterPrevious_iff _ previous

end NexusNode

import NexusNode.App.Block
import NexusNode.Evm.Calls

/-!
# The execution of a block

`FinalizeBlock` runs the begin blockers, the transactions one after the other and the end
blockers on a copy of the committed state. What a transaction that fails has written is thrown
away; the calls it made to the engine are not. The other modules of the application are
parameters: they are deterministic, and they do not write the block state of the EVM module.

Up to the calls of the engine, a block that was accepted as a proposal does to the state what
`nextState` says, which knows nothing of engines: the payload is recorded. It does so when the
payload can be sent, and does not return otherwise.

## Main definitions

* `MultiStore`, `Modules`: the state of the application, and the modules beside the EVM module
* `finalizeBlock`: the execution of a block
* `Block.Accepted`: what the acceptance of a proposal says about a block
* `nextState`: what a block does to the state

## Main results

* `accepted_of_processProposal`: an accepted proposal is such a block
* `finalizeBlock_next`: the execution of an accepted block refines `nextState`
* `finalizeBlock_of_alwaysValid`, `finalizeBlock_ne_ok`: when it comes to an end
* `finalizeBlock_calls`, `finalizeBlock_delivers`: the calls it makes
-/

namespace NexusNode

open Program Proc

variable {R : Type}

/-! ## The state of the application -/

/-- The store of the EVM module, and what all other modules keep. -/
structure MultiStore (R : Type) where
  evm : Store
  rest : R

/-- What a node leaves outside of its state: the calls of its engine, and the time. -/
structure Outside where
  log : List EngineEvent
  clock : ℕ

structure AppWorld (R : Type) where
  app : MultiStore R
  out : Outside

/-- What the EVM module sees of it. -/
def AppWorld.world (s : AppWorld R) : World := ⟨s.app.evm, s.out.log, s.out.clock⟩

/-- The modules beside the EVM module: their pre-blockers and begin blockers, the execution of a
transaction, and their end blockers with the block hooks. -/
structure Modules (p : Platform) (R : Type) where
  beginBlock : Header → MultiStore R → Except String (MultiStore R)
  deliverTx : Header → Bytes → MultiStore R → MultiStore R
  endBlock : Header → MultiStore R → Except String (MultiStore R)
  beginBlock_keeps : ∀ {hdr : Header} {s t : MultiStore R}, beginBlock hdr s = .ok t →
    t.evm.blockState = s.evm.blockState
  deliverTx_keeps : ∀ {hdr : Header} {raw : Bytes} {s : MultiStore R}, CosmosTx p raw →
    (deliverTx hdr raw s).evm.blockState = s.evm.blockState
  endBlock_keeps : ∀ {hdr : Header} {s t : MultiStore R}, endBlock hdr s = .ok t →
    t.evm.blockState = s.evm.blockState

structure Block where
  header : Header
  txs : List Bytes

/-! ## The execution -/

/-- A program of the EVM module inside the application. -/
def onEvm {α : Type} (prog : Evm α) : Proc (AppWorld R) EvmError α where
  run s :=
    let r := prog s.world
    (r.1, ⟨{ s.app with evm := r.2.store }, ⟨r.2.log, r.2.clock⟩⟩)

/-- What a failed transaction has written is thrown away, after a panic as well. -/
def discardFailed (prog : Proc (AppWorld R) EvmError Unit) : Proc (AppWorld R) EvmError Unit where
  run s :=
    match prog s with
    | (.ok (), t) => (.ok (), t)
    | (.error .running, t) => (.error .running, t)
    | (.error _, t) => (.ok (), { t with app := s.app })

def runModules (f : MultiStore R → Except String (MultiStore R)) :
    Proc (AppWorld R) EvmError Unit where
  run s :=
    match f s.app with
    | .ok app => (.ok (), { s with app := app })
    | .error e => (.error (.error (.ext e)), s)

/-- The message of a transaction whose only message is an execution payload: the ante handler
lets it through, and it is routed to the message server. -/
def payloadMessage (p : Platform) (raw : Bytes) : Option MsgExecutionPayload :=
  match p.txDecoder raw with
  | .error _ => none
  | .ok tx =>
    match tx.msgs with
    | [.executionPayload msg] => some msg
    | _ => none

section Execution

variable (k : Keeper) (eng : Engine) (m : Modules k.platform R) (ctx : SdkContext) (attempts : ℕ)

def runTx (raw : Bytes) : Proc (AppWorld R) EvmError Unit :=
  match payloadMessage k.platform raw with
  | some msg => discardFailed (onEvm (executionPayload k eng ctx attempts msg))
  | none => modify fun s => { s with app := m.deliverTx ctx.header raw s.app }

def runTxs : List Bytes → Proc (AppWorld R) EvmError Unit
  | [] => pure ()
  | raw :: txs => do
    runTx k eng m ctx attempts raw
    runTxs txs

/-- `FinalizeBlock`, with at most `attempts` rounds of each retry loop. -/
def finalizeBlock (txs : List Bytes) : Proc (AppWorld R) EvmError Unit := do
  runModules (m.beginBlock ctx.header)
  runTxs k eng m ctx attempts txs
  runModules (m.endBlock ctx.header)

end Execution

/-- The context in which a block is finalized. -/
def finalizeCtx (hdr : Header) : SdkContext := ⟨hdr, .finalize, .background, true⟩

/-! ## What a block does to the state -/

/-- The payload of the last transaction. -/
def Block.payload (p : Platform) (b : Block) : Option ExecutableData := do
  let raw ← b.txs.getLast?
  let msg ← payloadMessage p raw
  (p.unmarshalPayload msg.executionPayload).toOption

/-- Record the block of a payload. -/
def MultiStore.record (s : MultiStore R) (payload : ExecutableData) : MultiStore R :=
  { s with evm := { s.evm with blockState := some payload.blockState } }

/-- The modules begin the block, its transactions are executed up to the last one, the payload
of that one is recorded, and the modules end the block. -/
def nextState {p : Platform} (m : Modules p R) (b : Block) (s : MultiStore R) :
    Option (MultiStore R) := do
  let s₁ ← (m.beginBlock b.header s).toOption
  let s₂ := deliverTxs (m.deliverTx b.header) b.txs.dropLast s₁
  let s₃ := (b.payload p).elim s₂ s₂.record
  (m.endBlock b.header s₃).toOption

/-- A block that may be proposed on the store: the first one has no transactions, every other
one ends with a payload that is valid there. -/
inductive Block.Accepted (k : Keeper) (b : Block) (store : Store) : Prop
  | first : b.header.height = 1 → b.txs = [] → b.Accepted k store
  | next {cs : List Bytes} {e : Bytes} {msg : MsgExecutionPayload} {state : BlockState}
      {payload : ExecutableData} : b.header.height ≠ 1 → b.txs = cs ++ [e] →
      (∀ c ∈ cs, CosmosTx k.platform c) → PayloadTx k.platform e msg →
      store.blockState = some state →
      validatePayload k (finalizeCtx b.header) msg state = .ok payload → b.Accepted k store

/-- **What acceptance says.** An accepted proposal is such a block. -/
theorem accepted_of_processProposal {k : Keeper} {maxCosmosTxs : Int} {ctx : SdkContext}
    {b : Block} {votes : List VoteInfo} {store : Store} (hctx : ctx.header = b.header)
    (h : processProposal k maxCosmosTxs ctx ⟨b.header.height, b.txs, votes⟩ store = .ok .accept) :
    b.Accepted k store := by
  by_cases hh : b.header.height = 1
  · refine .first hh ?_
    unfold processProposal makeProcessProposalHandler at h
    rw [if_pos hh] at h
    by_contra hne
    rw [if_pos (List.length_pos_iff.mpr hne)] at h
    simp at h
  · obtain ⟨-, msg, ⟨cs, e, htxs, -, -, hcs, he⟩, hconsent⟩ :=
      (processProposal_eq_accept_iff hh).mp h
    obtain ⟨state, payload, hs, hv⟩ := proposalExecutionPayload_eq_ok_iff.mp hconsent
    have hv' : validatePayload k (finalizeCtx b.header) msg state = .ok payload := by
      rw [← hv]
      exact validatePayload_congr (congrArg Header.height hctx.symm)
        (congrArg Header.time hctx.symm)
    exact .next hh htxs hcs he hs hv'

section Messages

variable {p : Platform} {raw : Bytes} {msg : MsgExecutionPayload}

theorem PayloadTx.payloadMessage (h : PayloadTx p raw msg) : payloadMessage p raw = some msg := by
  obtain ⟨tx, -, hd, hm, -, -⟩ := h
  simp [NexusNode.payloadMessage, hd, hm]

theorem CosmosTx.payloadMessage (h : CosmosTx p raw) : payloadMessage p raw = none := by
  obtain ⟨tx, type, body, hd, hm, -⟩ := h
  simp [NexusNode.payloadMessage, hd, hm]

end Messages

/-- The payload of a block that ends with a valid one. -/
theorem payload_of_valid {k : Keeper} {b : Block} {cs : List Bytes} {e : Bytes}
    {msg : MsgExecutionPayload} {ctx : SdkContext} {state : BlockState} {payload : ExecutableData}
    (htxs : b.txs = cs ++ [e]) (he : PayloadTx k.platform e msg)
    (hv : validatePayload k ctx msg state = .ok payload) :
    b.payload k.platform = some payload := by
  obtain ⟨-, hdecode, -⟩ := validatePayload_eq_ok_iff.mp hv
  unfold Block.payload
  rw [htxs, List.getLast?_concat]
  simp [he.payloadMessage, hdecode, Except.toOption]

theorem payload_of_no_txs {p : Platform} {b : Block} (htxs : b.txs = []) : b.payload p = none := by
  simp [Block.payload, htxs]

/-! ## The state after an accepted block -/

section State

variable {p : Platform} {m : Modules p R} {hdr : Header}

theorem deliverTxs_blockState {cs : List Bytes} (hcs : ∀ c ∈ cs, CosmosTx p c) (s : MultiStore R) :
    (deliverTxs (m.deliverTx hdr) cs s).evm.blockState = s.evm.blockState := by
  unfold deliverTxs
  induction cs generalizing s with
  | nil => rfl
  | cons c cs ih =>
    rw [List.foldl_cons, ih fun d hd => hcs d (List.mem_cons_of_mem c hd)]
    exact m.deliverTx_keeps (hcs c List.mem_cons_self)

theorem except_toOption_eq_some_iff {ε α : Type} {x : Except ε α} {a : α} :
    x.toOption = some a ↔ x = .ok a := by
  cases x <;> simp [Except.toOption]

/-- A state after a block comes from the modules, the transactions before the last one and the
payload. -/
theorem nextState_eq_some_iff {b : Block} {s t : MultiStore R} :
    nextState m b s = some t ↔ ∃ s₁, m.beginBlock b.header s = .ok s₁ ∧
      m.endBlock b.header ((b.payload p).elim
        (deliverTxs (m.deliverTx b.header) b.txs.dropLast s₁)
        (deliverTxs (m.deliverTx b.header) b.txs.dropLast s₁).record) = .ok t := by
  unfold nextState
  simp [Option.bind_eq_some_iff, except_toOption_eq_some_iff]

/-- The block state after an accepted block is that of its payload, if it has one. -/
theorem nextState_blockState {k : Keeper} {m : Modules k.platform R} {b : Block}
    {s t : MultiStore R} (hb : b.Accepted k s.evm) (h : nextState m b s = some t) :
    t.evm.blockState = (b.payload k.platform).elim s.evm.blockState
      fun payload => some payload.blockState := by
  obtain ⟨s₁, hbegin, hend⟩ := nextState_eq_some_iff.mp h
  rw [m.endBlock_keeps hend]
  cases hb with
  | first hh htxs =>
    rw [payload_of_no_txs htxs, htxs]
    exact m.beginBlock_keeps hbegin
  | next hh htxs hcs he hs hv =>
    rw [payload_of_valid htxs he hv]
    rfl

end State

/-! ## Executing an accepted block -/

section Programs

theorem onEvm_apply {α : Type} (prog : Evm α) (s : AppWorld R) :
    onEvm prog s = ((prog s.world).1,
      ⟨{ s.app with evm := (prog s.world).2.store },
        ⟨(prog s.world).2.log, (prog s.world).2.clock⟩⟩) := rfl

/-- A transaction that returns has succeeded, or has left the state as it was. -/
theorem discardFailed_eq_ok_iff {prog : Proc (AppWorld R) EvmError Unit} {s t : AppWorld R} :
    discardFailed prog s = (.ok (), t) ↔ prog s = (.ok (), t) ∨
      ∃ r u, prog s = (.error r, u) ∧ r ≠ .running ∧ t = { u with app := s.app } := by
  unfold discardFailed
  dsimp only
  rcases hp : prog s with ⟨(e | e | _) | ⟨⟩, u⟩ <;> simp [eq_comm]

theorem runModules_eq_ok_iff {f : MultiStore R → Except String (MultiStore R)} {s t : AppWorld R} :
    runModules f s = (.ok (), t) ↔ f s.app = .ok t.app ∧ t.out = s.out := by
  unfold runModules
  dsimp only
  obtain ⟨app, out⟩ := t
  cases hf : f s.app with
  | error e => simp
  | ok a => simp [eq_comm]

variable {k : Keeper} {eng : Engine} {m : Modules k.platform R} {ctx : SdkContext} {attempts : ℕ}
  {s t : AppWorld R}

/-- Transactions without a payload are executed by the other modules. -/
theorem runTxs_cosmos_append {cs : List Bytes} (hcs : ∀ c ∈ cs, CosmosTx k.platform c)
    (txs : List Bytes) (s : AppWorld R) :
    runTxs k eng m ctx attempts (cs ++ txs) s = runTxs k eng m ctx attempts txs
      { s with app := deliverTxs (m.deliverTx ctx.header) cs s.app } := by
  induction cs generalizing s with
  | nil => rfl
  | cons c cs ih =>
    have hc : runTx k eng m ctx attempts c s =
        (.ok (), { s with app := m.deliverTx ctx.header c s.app }) := by
      unfold runTx
      rw [(hcs c List.mem_cons_self).payloadMessage]
      rfl
    have hstep : runTxs k eng m ctx attempts (c :: cs ++ txs) s =
        runTxs k eng m ctx attempts (cs ++ txs)
          { s with app := m.deliverTx ctx.header c s.app } := bind_of_ok hc _
    rw [hstep, ih fun d hd => hcs d (List.mem_cons_of_mem c hd)]
    rfl

/-- The parts of a block that ends with a payload. -/
theorem finalizeBlock_eq_ok_iff {cs : List Bytes} {e : Bytes} {msg : MsgExecutionPayload}
    (hcs : ∀ c ∈ cs, CosmosTx k.platform c) (he : PayloadTx k.platform e msg) :
    finalizeBlock k eng m ctx attempts (cs ++ [e]) s = (.ok (), t) ↔
      ∃ s₁ u, m.beginBlock ctx.header s.app = .ok s₁ ∧
        discardFailed (onEvm (executionPayload k eng ctx attempts msg))
          ⟨deliverTxs (m.deliverTx ctx.header) cs s₁, s.out⟩ = (.ok (), u) ∧
        m.endBlock ctx.header u.app = .ok t.app ∧ t.out = u.out := by
  have hlast : runTxs k eng m ctx attempts [e] =
      discardFailed (onEvm (executionPayload k eng ctx attempts msg)) := by
    simp only [runTxs, runTx, he.payloadMessage, bind_pure_unit]
  have htxs (v : AppWorld R) : runTxs k eng m ctx attempts (cs ++ [e]) v =
      discardFailed (onEvm (executionPayload k eng ctx attempts msg))
        ⟨deliverTxs (m.deliverTx ctx.header) cs v.app, v.out⟩ := by
    rw [runTxs_cosmos_append hcs, hlast]
  unfold finalizeBlock
  constructor
  · intro h
    obtain ⟨⟨⟩, v, hbegin, h⟩ := bind_eq_ok_iff.mp h
    obtain ⟨⟨⟩, u, hrun, hend⟩ := bind_eq_ok_iff.mp h
    obtain ⟨hbegin, hout⟩ := runModules_eq_ok_iff.mp hbegin
    rw [htxs, hout] at hrun
    exact ⟨v.app, u, hbegin, hrun, runModules_eq_ok_iff.mp hend⟩
  · rintro ⟨s₁, u, hbegin, hrun, hend⟩
    rw [← htxs ⟨s₁, s.out⟩] at hrun
    have hbegin : runModules (m.beginBlock ctx.header) s = (.ok (), ⟨s₁, s.out⟩) :=
      runModules_eq_ok_iff.mpr ⟨hbegin, rfl⟩
    rw [bind_of_ok hbegin, bind_of_ok hrun]
    exact runModules_eq_ok_iff.mpr hend

/-- A block without transactions. -/
theorem finalizeBlock_nil_eq_ok_iff :
    finalizeBlock k eng m ctx attempts [] s = (.ok (), t) ↔
      ∃ s₁, m.beginBlock ctx.header s.app = .ok s₁ ∧ m.endBlock ctx.header s₁ = .ok t.app ∧
        t.out = s.out := by
  unfold finalizeBlock runTxs
  constructor
  · intro h
    obtain ⟨⟨⟩, v, hbegin, h⟩ := bind_eq_ok_iff.mp h
    obtain ⟨hbegin, hout⟩ := runModules_eq_ok_iff.mp hbegin
    rw [pure_bind] at h
    obtain ⟨hend, hout'⟩ := runModules_eq_ok_iff.mp h
    exact ⟨v.app, hbegin, hend, hout'.trans hout⟩
  · rintro ⟨s₁, hbegin, hend, hout⟩
    have hbegin : runModules (m.beginBlock ctx.header) s = (.ok (), ⟨s₁, s.out⟩) :=
      runModules_eq_ok_iff.mpr ⟨hbegin, rfl⟩
    rw [bind_of_ok hbegin, pure_bind]
    exact runModules_eq_ok_iff.mpr ⟨hend, hout⟩

end Programs

/-! ## The execution refines `nextState` -/

section Refinement

variable {k : Keeper} {eng : Engine} {m : Modules k.platform R} {attempts : ℕ} {b : Block}
  {s t : AppWorld R}

/-- With an engine that refuses nothing, the payload of an accepted block that returns was
recorded. -/
theorem payload_recorded {hdr : Header} {msg : MsgExecutionPayload} {payload : ExecutableData}
    {u : AppWorld R} (heng : eng.Lenient)
    (hcheck : checkExecutionPayload k (finalizeCtx hdr) msg s.app.evm = .ok payload)
    (h : discardFailed (onEvm (executionPayload k eng (finalizeCtx hdr) attempts msg)) s =
      (.ok (), u)) :
    u.app = s.app.record payload ∧
      executionPayload k eng (finalizeCtx hdr) attempts msg s.world = (.ok (), u.world) := by
  rcases hexec : executionPayload k eng (finalizeCtx hdr) attempts msg s.world with ⟨o, w⟩
  have hev := onEvm_apply (executionPayload k eng (finalizeCtx hdr) attempts msg) s
  rw [hexec] at hev
  rcases discardFailed_eq_ok_iff.mp h with hok | ⟨r, v, hstop, hr, -⟩
  · rw [hev] at hok
    obtain ⟨rfl, rfl⟩ := Prod.mk.inj hok
    obtain ⟨q, hq, hstore⟩ := executionPayload_ok hexec
    obtain rfl := Except.ok.inj (hcheck.symm.trans hq)
    exact ⟨congrArg (fun st => { s.app with evm := st }) hstore, rfl⟩
  · -- a call that returned has succeeded: the engine refuses nothing and the context is live
    rw [hev] at hstop
    obtain ⟨rfl, -⟩ := Prod.mk.inj hstop
    have hne : (.error r : Outcome EvmError Unit) ≠ .error .running := fun h =>
      hr (Except.error.inj h)
    obtain ⟨hok, -⟩ := executionPayload_of_lenient heng hcheck hexec hne rfl
    cases hok

/-- The checks of the message server on an accepted block, after its other transactions. -/
theorem checkExecutionPayload_of_valid {cs : List Bytes} {msg : MsgExecutionPayload}
    {state : BlockState} {payload : ExecutableData} {s₁ : MultiStore R}
    (hcs : ∀ c ∈ cs, CosmosTx k.platform c) (hs : s.app.evm.blockState = some state)
    (hv : validatePayload k (finalizeCtx b.header) msg state = .ok payload)
    (hbegin : m.beginBlock b.header s.app = .ok s₁) :
    checkExecutionPayload k (finalizeCtx b.header) msg
      (deliverTxs (m.deliverTx b.header) cs s₁).evm = .ok payload := by
  refine checkExecutionPayload_eq_ok_iff.mpr
    ⟨rfl, executionPayload_ne_nil_of_valid hv, state, ?_, hv⟩
  rw [deliverTxs_blockState hcs, m.beginBlock_keeps hbegin, hs]

/-- **The execution of an accepted block** does to the state what the block says, whatever the
engine answers as long as it refuses nothing. -/
theorem finalizeBlock_next (hb : b.Accepted k s.app.evm) (heng : eng.Lenient)
    (h : finalizeBlock k eng m (finalizeCtx b.header) attempts b.txs s = (.ok (), t)) :
    nextState m b s.app = some t.app := by
  rw [nextState_eq_some_iff]
  cases hb with
  | first hh htxs =>
    rw [htxs] at h
    obtain ⟨s₁, hbegin, hend, -⟩ := finalizeBlock_nil_eq_ok_iff.mp h
    rw [payload_of_no_txs htxs, htxs]
    exact ⟨s₁, hbegin, hend⟩
  | @next cs e msg state payload hh htxs hcs he hs hv =>
    rw [htxs] at h
    obtain ⟨s₁, u, hbegin, hrun, hend, -⟩ := (finalizeBlock_eq_ok_iff hcs he).mp h
    have hcheck := checkExecutionPayload_of_valid (s := s) hcs hs hv hbegin
    obtain ⟨hu, -⟩ := payload_recorded heng hcheck hrun
    rw [hu] at hend
    rw [payload_of_valid htxs he hv, htxs, List.dropLast_concat]
    exact ⟨s₁, hbegin, hend⟩

/-- The header and the payload of the block let the payload be sent. -/
def Block.Sendable (p : Platform) (b : Block) : Prop :=
  ∀ payload, b.payload p = some payload →
    bytesToHash b.header.appHash ≠ zeroHash ∧ NexusNode.Sendable p payload

/-- **The execution comes to an end** when the payload can be sent, the engine takes everything
and the modules do not fail. -/
theorem finalizeBlock_of_alwaysValid (hb : b.Accepted k s.app.evm) (heng : eng.AlwaysValid)
    (hsend : b.Sendable k.platform) (hnext : nextState m b s.app ≠ none) :
    ∃ t, finalizeBlock k eng m (finalizeCtx b.header) 1 b.txs s = (.ok (), t) := by
  obtain ⟨t, ht⟩ := Option.ne_none_iff_exists'.mp hnext
  obtain ⟨s₁, hbegin, hend⟩ := nextState_eq_some_iff.mp ht
  cases hb with
  | first hh htxs =>
    rw [payload_of_no_txs htxs, htxs] at hend
    rw [htxs]
    exact ⟨⟨t, s.out⟩, finalizeBlock_nil_eq_ok_iff.mpr ⟨s₁, hbegin, hend, rfl⟩⟩
  | @next cs e msg state payload hh htxs hcs he hs hv =>
    have hpayload := payload_of_valid htxs he hv
    obtain ⟨happ, hsendable⟩ := hsend payload hpayload
    rw [hpayload, htxs, List.dropLast_concat] at hend
    have hcheck := checkExecutionPayload_of_valid (s := s) hcs hs hv hbegin
    let v : AppWorld R := ⟨deliverTxs (m.deliverTx b.header) cs s₁, s.out⟩
    have hok : (executionPayload k eng (finalizeCtx b.header) 1 msg v.world).1 = .ok () :=
      executionPayload_of_alwaysValid heng happ hcheck hsendable 0
    obtain ⟨u, hrun⟩ : ∃ u, discardFailed
        (onEvm (executionPayload k eng (finalizeCtx b.header) 1 msg)) v = (.ok (), u) :=
      ⟨_, discardFailed_eq_ok_iff.mpr (.inl (Prod.ext hok rfl))⟩
    obtain ⟨hu, -⟩ := payload_recorded heng.lenient hcheck hrun
    have hend' : m.endBlock b.header u.app = .ok t := by
      rw [hu]
      exact hend
    rw [htxs]
    exact ⟨⟨t, u.out⟩, (finalizeBlock_eq_ok_iff hcs he).mpr ⟨s₁, u, hbegin, hrun, hend', rfl⟩⟩

/-- A payload that cannot be sent keeps the execution from returning. -/
theorem finalizeBlock_ne_ok (hb : b.Accepted k s.app.evm) (heng : eng.Lenient)
    (hsend : ¬ b.Sendable k.platform) (t : AppWorld R) :
    finalizeBlock k eng m (finalizeCtx b.header) attempts b.txs s ≠ (.ok (), t) := by
  intro h
  cases hb with
  | first hh htxs =>
    refine hsend fun payload hpayload => ?_
    rw [payload_of_no_txs htxs] at hpayload
    cases hpayload
  | @next cs e msg state payload hh htxs hcs he hs hv =>
    rw [htxs] at h
    obtain ⟨s₁, u, hbegin, hrun, -, -⟩ := (finalizeBlock_eq_ok_iff hcs he).mp h
    have hcheck := checkExecutionPayload_of_valid (s := s) hcs hs hv hbegin
    obtain ⟨-, hexec⟩ := payload_recorded heng hcheck hrun
    obtain ⟨q, hq, hrounds⟩ := executionPayload_fst_eq_ok_iff.mp (congrArg Prod.fst hexec)
    obtain rfl := Except.ok.inj (hcheck.symm.trans hq)
    have hns : bytesToHash b.header.appHash = zeroHash ∨
        ¬ NexusNode.Sendable k.platform payload := by
      by_contra hor
      rw [not_or, not_not] at hor
      refine hsend fun q hq => ?_
      rw [payload_of_valid htxs he hv] at hq
      exact Option.some.inj hq ▸ hor
    exact engineRounds_of_not_sendable hns attempts _ hrounds

end Refinement

/-! ## The calls of an execution -/

section Calls

/-- The log grew by calls that satisfy `P`. -/
def Adds (P : EngineEvent → Prop) : AppWorld R → AppWorld R → Prop :=
  Order.Preimage AppWorld.world (LogsOnly P)

instance (P : EngineEvent → Prop) : Std.Refl (Adds (R := R) P) :=
  ⟨fun s => refl_of (LogsOnly P) s.world⟩

instance (P : EngineEvent → Prop) : IsTrans (AppWorld R) (Adds P) :=
  ⟨fun s t u => IsTrans.trans s.world t.world u.world⟩

theorem Adds.of_out_eq {P : EngineEvent → Prop} {s t : AppWorld R} (h : t.out = s.out) :
    Adds P s t := .of_log_eq (congrArg Outside.log h)

theorem runModules_adds {P : EngineEvent → Prop} (f : MultiStore R → Except String (MultiStore R)) :
    Within (Adds P) (runModules f) := by
  intro s
  unfold runModules
  dsimp only
  split
  · exact Adds.of_out_eq rfl
  · exact Adds.of_out_eq rfl

theorem discardFailed_adds {P : EngineEvent → Prop} {prog : Proc (AppWorld R) EvmError Unit}
    (hprog : Within (Adds P) prog) : Within (Adds P) (discardFailed prog) := by
  intro s
  have hs := hprog s
  unfold discardFailed
  dsimp only
  rcases hp : prog s with ⟨(e | e | _) | ⟨⟩, u⟩ <;> rw [hp] at hs <;> exact hs

variable {k : Keeper} {eng : Engine} {m : Modules k.platform R} {ctx : SdkContext} {attempts : ℕ}

/-- The call is one of the finalization of a payload among the transactions. -/
def TxCall (k : Keeper) (hdr : Header) (txs : List Bytes) (e : EngineEvent) : Prop :=
  ∃ raw ∈ txs, ∃ msg payload, payloadMessage k.platform raw = some msg ∧
    k.platform.unmarshalPayload msg.executionPayload = .ok payload ∧ FinalizeCall k hdr payload e

theorem runTx_adds {txs : List Bytes} {raw : Bytes} (hraw : raw ∈ txs) :
    Within (Adds (TxCall k ctx.header txs)) (runTx k eng m ctx attempts raw) := by
  unfold runTx
  cases hmsg : payloadMessage k.platform raw with
  | none => exact .modify fun s => Adds.of_out_eq rfl
  | some msg =>
    refine discardFailed_adds fun s => ?_
    rw [onEvm_apply]
    refine (executionPayload_calls k eng ctx attempts msg s.world).imp fun e he => ?_
    obtain ⟨state, payload, -, hdecode, -, hcall⟩ := he
    exact ⟨raw, hraw, msg, payload, hmsg, hdecode, hcall⟩

theorem runTxs_adds {txs rest : List Bytes} (hrest : ∀ raw ∈ rest, raw ∈ txs) :
    Within (Adds (TxCall k ctx.header txs)) (runTxs k eng m ctx attempts rest) := by
  induction rest with
  | nil => exact .pure ()
  | cons raw rest ih =>
    exact .bind (runTx_adds (hrest raw List.mem_cons_self)) fun _ =>
      ih fun r hr => hrest r (List.mem_cons_of_mem raw hr)

variable (k eng m ctx attempts) in
/-- **The calls of an execution**, whichever way it ends, are about payloads among its
transactions. -/
theorem finalizeBlock_calls (txs : List Bytes) :
    Within (Adds (TxCall k ctx.header txs)) (finalizeBlock k eng m ctx attempts txs) :=
  .bind (runModules_adds _) fun _ => .bind (runTxs_adds fun _ h => h) fun _ => runModules_adds _

/-- In an accepted block these are calls about its one payload. -/
theorem TxCall.of_accepted {b : Block} {store : Store} {e : EngineEvent}
    (hb : b.Accepted k store) (he : TxCall k b.header b.txs e) :
    ∃ payload, b.payload k.platform = some payload ∧ FinalizeCall k b.header payload e := by
  obtain ⟨raw, hraw, msg', payload', hmsg', hdecode', hcall⟩ := he
  cases hb with
  | first hh htxs =>
    rw [htxs] at hraw
    cases hraw
  | @next cs last msg state payload hh htxs hcs hlast hs hv =>
    rw [htxs] at hraw
    rcases List.mem_append.mp hraw with hc | hc
    · -- the transactions before the last one carry no payload
      rw [(hcs raw hc).payloadMessage] at hmsg'
      cases hmsg'
    · obtain rfl := List.mem_singleton.mp hc
      rw [hlast.payloadMessage] at hmsg'
      obtain rfl := Option.some.inj hmsg'
      obtain ⟨-, hdecode, -⟩ := validatePayload_eq_ok_iff.mp hv
      obtain rfl := Except.ok.inj (hdecode.symm.trans hdecode')
      exact ⟨payload, payload_of_valid htxs hlast hv, hcall⟩

/-- Retries of calls that end well have made one that was answered with `true`. -/
theorem retry_ok_log {fn : Evm Bool} {goCtx : GoContext} {w w' : World}
    (hfn : Within (LogsOnly fun _ => True) fn)
    (h : retry goCtx fn attempts w = (.ok (), w')) :
    ∃ u es, u.log = w.log ++ es ∧ fn u = (.ok true, w') := by
  have hnext : ∀ s s', LogsOnly (fun _ => True) w s → fn s = (.ok false, s') →
      (fun w : World => (goCtx.err w.clock).map EvmError.ctx) s' = none →
      LogsOnly (fun _ => True) w s'.sleep := by
    intro s s' hs hf _
    have hs' := hfn s
    rw [hf] at hs'
    exact IsTrans.trans w s s' hs hs'
  obtain ⟨u, ⟨es, hes, -⟩, hu⟩ := retryLoop_ok_exists hnext (refl_of (LogsOnly _) w) h
  exact ⟨u, es, hes, hu⟩

theorem newPayloadRetry_ok {payload : ExecutableData} {w w' : World}
    (h : retry ctx.goCtx (newPayloadAttempt k eng ctx payload) attempts w = (.ok (), w')) :
    ∃ es hashes reply, BlobHashes k.platform payload.transactions hashes ∧
      w'.log = w.log ++ es ++ [.newPayload (payloadCall k ctx.header payload hashes) reply] ∧
      newPayloadVerdict reply = .ok true := by
  have hfn : Within (LogsOnly fun _ => True) (newPayloadAttempt k eng ctx payload) := by
    intro w
    rcases newPayloadAttempt_cases k eng ctx payload w with hno | ⟨hashes, -, hcall⟩
    · rw [hno]
      exact refl_of (LogsOnly _) w
    · rw [hcall]
      exact logsOnly_record w trivial _
  obtain ⟨u, es, hes, hu⟩ := retry_ok_log hfn h
  rcases newPayloadAttempt_cases k eng ctx payload u with hno | ⟨hashes, hh, hcall⟩
  · simp [hno] at hu
  · rw [hcall] at hu
    obtain ⟨hverdict, rfl⟩ := Prod.mk.inj hu
    exact ⟨es, hashes, _, hh, by rw [World.record_log, hes], hverdict⟩

theorem forkchoiceRetry_ok {payload : ExecutableData} {w w' : World}
    (h : retry ctx.goCtx (forkchoiceAttempt eng payload) attempts w = (.ok (), w')) :
    ∃ es reply, w'.log = w.log ++ es ++
        [.forkchoiceUpdated ⟨forkchoiceAt payload.blockHash, none⟩ reply] ∧
      forkchoiceVerdict reply = .ok true := by
  have hfn : Within (LogsOnly fun _ => True) (forkchoiceAttempt eng payload) := by
    intro w
    rw [forkchoiceAttempt_apply]
    exact logsOnly_record w trivial _
  obtain ⟨u, es, hes, hu⟩ := retry_ok_log hfn h
  rw [forkchoiceAttempt_apply] at hu
  obtain ⟨hverdict, rfl⟩ := Prod.mk.inj hu
  exact ⟨es, _, by rw [World.record_log, hes], hverdict⟩

/-- The two calls by which an engine took a payload as a block and as its head. -/
def DeliveredBy (k : Keeper) (hdr : Header) (payload : ExecutableData)
    (calls : List EngineEvent) : Prop :=
  ∃ hashes reply reply', BlobHashes k.platform payload.transactions hashes ∧
    calls = [.newPayload (payloadCall k hdr payload hashes) reply,
      .forkchoiceUpdated ⟨forkchoiceAt payload.blockHash, none⟩ reply'] ∧
    newPayloadVerdict reply = .ok true ∧ forkchoiceVerdict reply' = .ok true

/-- A finalization that succeeds has handed over the payload. -/
theorem executionPayload_delivers {msg : MsgExecutionPayload} {payload : ExecutableData}
    {w w' : World} (hcheck : checkExecutionPayload k ctx msg w.store = .ok payload)
    (h : executionPayload k eng ctx attempts msg w = (.ok (), w')) :
    ∃ es calls, w'.log = w.log ++ es ∧ DeliveredBy k ctx.header payload calls ∧
      calls.Sublist es := by
  rw [executionPayload_eq, hcheck] at h
  dsimp only at h
  rcases hrounds : engineRounds k eng ctx attempts payload w with ⟨r | ⟨⟩, w₁⟩ <;>
    rw [hrounds] at h
  · simp at h
  · obtain ⟨-, rfl⟩ := Prod.mk.inj h
    unfold engineRounds at hrounds
    obtain ⟨⟨⟩, v, hnew, hhead⟩ := bind_eq_ok_iff.mp hrounds
    obtain ⟨es, hashes, reply, hh, hlog, hverdict⟩ := newPayloadRetry_ok hnew
    obtain ⟨es', reply', hlog', hverdict'⟩ := forkchoiceRetry_ok hhead
    refine ⟨es ++ ([.newPayload (payloadCall k ctx.header payload hashes) reply] ++ (es' ++
      [.forkchoiceUpdated ⟨forkchoiceAt payload.blockHash, none⟩ reply'])), _, ?_,
      ⟨hashes, reply, reply', hh, rfl, hverdict, hverdict'⟩, ?_⟩
    · show w₁.log = _
      rw [hlog', hlog]
      simp only [List.append_assoc]
    · exact ((List.sublist_append_right es' _).cons_cons _).trans (List.sublist_append_right es _)

variable {b : Block} {s t : AppWorld R}

/-- The calls by which the payload of a block, if it has one, was handed over. -/
def Block.DeliveredBy (k : Keeper) (b : Block) (calls : List EngineEvent) : Prop :=
  match b.payload k.platform with
  | none => calls = []
  | some payload => NexusNode.DeliveredBy k b.header payload calls

/-- **An execution that succeeds has handed over the payload** of an accepted block. -/
theorem finalizeBlock_delivers (hb : b.Accepted k s.app.evm) (heng : eng.Lenient)
    (h : finalizeBlock k eng m (finalizeCtx b.header) attempts b.txs s = (.ok (), t)) :
    ∃ es calls, t.out.log = s.out.log ++ es ∧ b.DeliveredBy k calls ∧ calls.Sublist es := by
  unfold Block.DeliveredBy
  cases hb with
  | first hh htxs =>
    rw [htxs] at h
    obtain ⟨s₁, -, -, hout⟩ := finalizeBlock_nil_eq_ok_iff.mp h
    rw [payload_of_no_txs htxs, hout]
    exact ⟨[], [], by simp, rfl, List.Sublist.refl _⟩
  | @next cs e msg state payload hh htxs hcs he hs hv =>
    rw [htxs] at h
    obtain ⟨s₁, u, hbegin, hrun, -, hout⟩ := (finalizeBlock_eq_ok_iff hcs he).mp h
    have hcheck := checkExecutionPayload_of_valid (s := s) hcs hs hv hbegin
    obtain ⟨-, hexec⟩ := payload_recorded heng hcheck hrun
    rw [payload_of_valid htxs he hv, hout]
    exact executionPayload_delivers hcheck hexec

end Calls

end NexusNode

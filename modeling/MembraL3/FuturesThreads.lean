/-
The futures market among threads.

The operations of `ComputePriceOracle` under its mutex and those of `ComputeFuturesMarket`
under that of the market, access by access.  The market loads the oracle's three current
prices without the oracle's mutex, and `feed_price` stores them one after the other.

* `alone_body` — on its own, a body does what the operation does.
-/
import MembraL3.FuturesPositions
import MembraL3.GasVaultThreads
import MembraL3.Lib.Atomicity
import MembraL3.Lib.StoreLoops

namespace Membra

open Threads

/-! ### Accesses to the oracle -/

namespace ComputePriceOracle

def setIndex (index : ℚ) (oracle : ComputePriceOracle) : ComputePriceOracle :=
  { oracle with currentIndex := index }

def setCpuPrice (price : ℚ) (oracle : ComputePriceOracle) : ComputePriceOracle :=
  { oracle with currentCpuPrice := price }

def setRamPrice (price : ℚ) (oracle : ComputePriceOracle) : ComputePriceOracle :=
  { oracle with currentRamPrice := price }

/-- The loop of `price_change_pct`. -/
def oldestBody (secondsAgo now : Seconds) (oldest : ℚ) (i : Fin 100) :
    Prog ComputePriceOracle Mutex ℚ := do
  let point ← .read fun oracle => oracle.priceHistory.get i
  return if point.timestamp > 0 ∧ point.timestamp < now - secondsAgo then point.computeIndex
    else oldest

def priceChangePctBody (secondsAgo now : Seconds) : Prog ComputePriceOracle Mutex ℚ := do
  let oldest ← (List.finRange 100).foldlM (oldestBody secondsAgo now) 0
  if oldest = 0 then return 0
  else
    let currentIndex ← .read fun oracle => oracle.currentIndex
    return (currentIndex - oldest) / oldest * 100

/-- It only reads. -/
theorem silent_priceChangePctBody (secondsAgo now : Seconds) :
    Silent id (priceChangePctBody secondsAgo now) := by
  have hloop : ∀ oldest i, Silent id (oldestBody secondsAgo now oldest i) :=
    fun _ _ => (silent_read _).bind fun _ => silent_done _
  refine (silent_foldlM hloop (List.finRange 100) 0).bind fun oldest => ?_
  split
  · exact silent_done _
  · exact (silent_read _).bind fun _ => silent_done _

theorem priceChangePctBody_alone (secondsAgo now : Seconds) (oracle : ComputePriceOracle) :
    (priceChangePctBody secondsAgo now).alone oracle
      = (oracle.priceChangePct secondsAgo now, oracle) := by
  have hpoints : (List.finRange 100).map oracle.priceHistory.get = oracle.priceHistory.toList := by
    refine List.ext_getElem (by simp) fun i _ _ => ?_
    simp [Vector.get]
  let pick : ComputePricePoint → ℚ → ℚ := fun point oldest =>
    if point.timestamp > 0 ∧ point.timestamp < now - secondsAgo then point.computeIndex else oldest
  -- the loop runs over the slots, `oldestPrice` over their list
  have hloop : ((List.finRange 100).foldlM (oldestBody secondsAgo now) 0).alone oracle
      = (oracle.oldestPrice secondsAgo now, oracle) := by
    rw [Prog.alone_foldlM (f := fun oracle oldest i => pick (oracle.priceHistory.get i) oldest)
      fun _ _ _ => rfl]
    rw [oldestPrice, ← hpoints, List.foldl_map]
  rw [priceChangePctBody, Prog.monad_bind, Prog.alone_bind, hloop, priceChangePct]
  dsimp only
  split
  · rfl
  · rfl

end ComputePriceOracle

/-! ### Accesses to the market -/

/-- What the market can see of the oracle. -/
structure Prices where
  index : ℚ
  cpu : ℚ
  ram : ℚ
  deriving DecidableEq

def ComputePriceOracle.prices (oracle : ComputePriceOracle) : Prices :=
  ⟨oracle.currentIndex, oracle.currentCpuPrice, oracle.currentRamPrice⟩

namespace OpenCall

/-- The record that is filled in, from an id and the prices that have been loaded. -/
def record (id : String) (seen : Prices) : OpenCall → ComputeFuture
  | .forward trader cpuCores ramGb duration collateral now =>
    { futureId := id
      traderAddress := trader
      type := .forwardContract
      status := .opened
      cpuCores := cpuCores
      ramGb := ramGb
      entryPrice := seen.index
      targetPrice := seen.index
      leverage := 1
      collateralSol := collateral
      notionalValue := cpuCores.toNat * seen.cpu + ramGb.toNat * seen.ram
      openedAt := now
      expiresAt := now + duration
      settledAt := 0
      pnl := 0 }
  | .long trader cpuCores ramGb leverage collateral duration now =>
    { futureId := id
      traderAddress := trader
      type := .speculativeLong
      status := .opened
      cpuCores := cpuCores
      ramGb := ramGb
      entryPrice := seen.index
      targetPrice := seen.index * (3 / 2)
      leverage := leverage
      collateralSol := collateral
      notionalValue := (cpuCores.toNat * seen.cpu + ramGb.toNat * seen.ram) * leverage
      openedAt := now
      expiresAt := now + duration
      settledAt := 0
      pnl := 0 }
  | .short trader cpuCores ramGb leverage collateral duration now =>
    { futureId := id
      traderAddress := trader
      type := .speculativeShort
      status := .opened
      cpuCores := cpuCores
      ramGb := ramGb
      entryPrice := seen.index
      targetPrice := seen.index * (1 / 2)
      leverage := leverage
      collateralSol := collateral
      notionalValue := (cpuCores.toNat * seen.cpu + ramGb.toNat * seen.ram) * leverage
      openedAt := now
      expiresAt := now + duration
      settledAt := 0
      pnl := 0 }

end OpenCall

namespace ComputeFuturesMarket

/-- `future_counter_++`, printed behind the tag. -/
def nextFutureId (tag : String) (market : ComputeFuturesMarket) : String × ComputeFuturesMarket :=
  (tag ++ toString market.futureCounter.toNat,
    { market with futureCounter := market.futureCounter + 1 })

/-- `futures_[future.future_id] = std::move(future)`. -/
def store (future : ComputeFuture) (market : ComputeFuturesMarket) : ComputeFuturesMarket :=
  { market with futures := market.futures.assign future.futureId future }

/-- A write to a field of a stored position. -/
def update (id : String) (f : ComputeFuture → ComputeFuture) (market : ComputeFuturesMarket) :
    ComputeFuturesMarket :=
  { market with futures := market.futures.modify id f }

def setPnl (pnl : ℚ) (future : ComputeFuture) : ComputeFuture := { future with pnl := pnl }

def setSettledAt (now : Seconds) (future : ComputeFuture) : ComputeFuture :=
  { future with settledAt := now }

def setStatus (status : FutureStatus) (future : ComputeFuture) : ComputeFuture :=
  { future with status := status }

/-- The end of `settle_future`, once it has the current price. -/
def settleWith (id : String) (now : Seconds) (future : ComputeFuture) (currentPrice : ℚ) :
    Prog ComputeFuturesMarket Mutex (Option ℚ) := do
  .write (update id (setPnl (future.settlementPnl currentPrice)))
  .write (update id (setSettledAt now))
  .write (update id (setStatus .settled))
  .read fun market => (market.futures.lookup id).map ComputeFuture.pnl

/-- The body of the loop of `check_liquidations`. -/
def liquidateBody (currentPrice : ℚ) (liquidated : List String) (id : String) :
    Prog ComputeFuturesMarket Mutex (List String) := do
  let found ← .read fun market => market.futures.lookup id
  match found with
  | none => return liquidated
  | some future =>
    if future.status = .opened ∧ future.belowCollateral currentPrice then
      .write (update id (setStatus .liquidated))
      .write (update id (setPnl (-future.collateralSol)))
      return liquidated ++ [future.futureId]
    else return liquidated

def liquidateWith (order : MapOrder) (currentPrice : ℚ) :
    Prog ComputeFuturesMarket Mutex (List String) := do
  let ids ← .read fun market => order.order market.futures.keys
  ids.foldlM (liquidateBody currentPrice) []

/-- The body of the loop of `open_futures_count`. -/
def countBody (count : ℕ) (id : String) : Prog ComputeFuturesMarket Mutex ℕ := do
  let found ← .read fun market => market.futures.lookup id
  return if found.any fun future => future.status = .opened then count + 1 else count

def openFuturesCountBody : Prog ComputeFuturesMarket Mutex ℕ := do
  let ids ← .read fun market => market.futures.keys
  ids.foldlM countBody 0

theorem lockFree_settleWith (id : String) (now : Seconds) (future : ComputeFuture)
    (currentPrice : ℚ) : LockFree (settleWith id now future currentPrice) :=
  fun _ _ _ _ => trivial

theorem lockFree_liquidateWith (order : MapOrder) (currentPrice : ℚ) :
    LockFree (liquidateWith order currentPrice) := by
  refine (lockFree_read _).bind fun ids => lockFree_foldlM (fun liquidated id => ?_) ids []
  refine (lockFree_read _).bind fun found => ?_
  cases found with
  | none => trivial
  | some future =>
    dsimp only
    split
    · exact fun _ _ => trivial
    · trivial

theorem lockFree_openFuturesCountBody : LockFree openFuturesCountBody := by
  have hloop : ∀ count id, LockFree (countBody count id) := fun _ _ _ => trivial
  exact (lockFree_read _).bind fun ids => lockFree_foldlM hloop ids 0

variable {market : ComputeFuturesMarket} {id : String} {future : ComputeFuture}

theorem update_of_lookup (h : market.futures.lookup id = some future)
    (f : ComputeFuture → ComputeFuture) :
    update id f market = { market with futures := market.futures.assign id (f future) } := by
  rw [update, Store.modify_of_lookup h]

theorem update_assign (futures : Store String ComputeFuture) (n : UInt64)
    (f : ComputeFuture → ComputeFuture) :
    update id f ⟨futures.assign id future, n⟩ = ⟨futures.assign id (f future), n⟩ := by
  rw [update, Store.modify_assign]

theorem settleWith_alone (h : market.futures.lookup id = some future) (now : Seconds)
    (currentPrice : ℚ) :
    (settleWith id now future currentPrice).alone market
      = (some (future.settled currentPrice now).pnl,
        { market with futures := market.futures.assign id (future.settled currentPrice now) }) := by
  -- three writes to one stored position
  have hstored : update id (setStatus .settled) (update id (setSettledAt now)
      (update id (setPnl (future.settlementPnl currentPrice)) market))
      = { market with futures := market.futures.assign id (future.settled currentPrice now) } := by
    rw [update_of_lookup h, update_assign, update_assign]
    rfl
  show ((_ : Option ℚ), update id _ (update id _ (update id _ market))) = _
  rw [hstored]
  simp

theorem liquidateBody_alone (currentPrice : ℚ) (liquidated ids : List String)
    (market : ComputeFuturesMarket) :
    (ids.foldlM (liquidateBody currentPrice) liquidated).alone market
      = (liquidated ++ (liquidationLoop currentPrice market.futures ids).1,
        { market with futures := (liquidationLoop currentPrice market.futures ids).2 }) := by
  induction ids generalizing liquidated market with
  | nil => simp [liquidationLoop]
  | cons id ids ih =>
    show ((liquidateBody currentPrice liquidated id).bind _).alone market = _
    rw [Prog.alone_bind, liquidateBody, Prog.monad_bind, Prog.read_bind, Prog.alone_act, id_eq,
      liquidationLoop]
    cases hlookup : market.futures.lookup id with
    | none => exact ih liquidated market
    | some future =>
      dsimp only
      split
      -- the two writes leave the position as the loop of the source does
      · show Prog.alone (ids.foldlM (liquidateBody currentPrice) (liquidated ++ [future.futureId]))
          (update id _ (update id _ market)) = _
        rw [update_of_lookup hlookup, update_assign, ih, List.append_assoc]
        rfl
      · exact ih liquidated market

theorem liquidateWith_alone (order : MapOrder) (oracle : ComputePriceOracle)
    (market : ComputeFuturesMarket) :
    (liquidateWith order oracle.currentIndex).alone market
      = market.checkLiquidations order oracle := by
  rw [liquidateWith, Prog.monad_bind, Prog.read_bind, Prog.alone_act, id_eq, liquidateBody_alone]
  rfl

theorem openFuturesCountBody_alone (market : ComputeFuturesMarket) :
    openFuturesCountBody.alone market = (market.openFuturesCount, market) := by
  rw [openFuturesCountBody, Prog.monad_bind, Prog.read_bind, Prog.alone_act, id_eq,
    Prog.alone_foldlM (f := fun market count id =>
      if (market.futures.lookup id).any fun future => future.status = .opened then count + 1
      else count) fun _ _ _ => rfl,
    Store.foldl_count_keys]
  rfl

end ComputeFuturesMarket

/-! ### Programs -/

namespace FuturesSystem

open ComputePriceOracle ComputeFuturesMarket

def onOracle {α : Type} (p : Prog ComputePriceOracle Mutex α) : Prog FuturesSystem Mutex α :=
  p.focus oracle fun system oracle => { system with oracle := oracle }

def onMarket {α : Type} (p : Prog ComputeFuturesMarket Mutex α) : Prog FuturesSystem Mutex α :=
  p.focus market fun system market => { system with market := market }

def loadIndex : Prog FuturesSystem Mutex ℚ := .read fun system => system.oracle.currentIndex

def loadCpuPrice : Prog FuturesSystem Mutex ℚ := .read fun system => system.oracle.currentCpuPrice

def loadRamPrice : Prog FuturesSystem Mutex ℚ := .read fun system => system.oracle.currentRamPrice

def feedPriceBody (cpuPriceSol ramPriceSol : ℚ) (now : Seconds) : Prog FuturesSystem Mutex Unit :=
  let computeIndex := cpuPriceSol * cpuWeight + ramPriceSol * ramWeight
  do
    onOracle (.write (setPoint ⟨cpuPriceSol, ramPriceSol, computeIndex, now⟩))
    onOracle (.write advance)
    onOracle (.write (setIndex computeIndex))
    onOracle (.write (setCpuPrice cpuPriceSol))
    onOracle (.write (setRamPrice ramPriceSol))

/-- `open_forward`, `open_long` and `open_short`. -/
def openBody (c : OpenCall) : Prog FuturesSystem Mutex String := do
  -- `compute_index_for_cpu_ram` loads the prices of cores and memory
  let cpu ← loadCpuPrice
  let ram ← loadRamPrice
  let id ← onMarket (.atomically (nextFutureId c.tag))
  let index ← loadIndex
  let future := c.record id ⟨index, cpu, ram⟩
  onMarket (.write (store future))
  return future.movedFrom.futureId

def settleBody (id : String) (now : Seconds) : Prog FuturesSystem Mutex (Option ℚ) := do
  let found ← onMarket (.read fun market => market.futures.lookup id)
  match found with
  | none => return none
  | some future =>
    if future.status ≠ .opened then return none
    else
      let currentPrice ← loadIndex
      onMarket (settleWith id now future currentPrice)

def liquidationsBody (order : MapOrder) : Prog FuturesSystem Mutex (List String) := do
  let currentPrice ← loadIndex
  onMarket (liquidateWith order currentPrice)

/-- What a call does under its mutex. -/
def body (order : MapOrder) : Call → Prog FuturesSystem Mutex Reply
  | .feedPrice cpu ram now => do
    feedPriceBody cpu ram now
    return .fed
  | .priceChangePct secondsAgo now => do
    let percent ← onOracle (priceChangePctBody secondsAgo now)
    return .changed percent
  | .openPosition c => do
    let id ← openBody c
    return .opened id
  | .settleFuture id now => do
    let pnl ← settleBody id now
    return .settled pnl
  | .checkLiquidations => do
    let ids ← liquidationsBody order
    return .liquidated ids
  | .getFuture id => do
    let future ← onMarket (.read fun market => market.getFuture id)
    return .future future
  | .openFuturesCount => do
    let count ← onMarket openFuturesCountBody
    return .count count

/-- Feeding and reading prices takes the mutex of the oracle, the rest that of the
market. -/
def mutex : Call → Mutex
  | .feedPrice .. => .computePrices
  | .priceChangePct .. => .computePrices
  | _ => .futures

def perform (order : MapOrder) (c : Call) : Prog FuturesSystem Mutex (Call × Reply) := do
  let reply ← .guarded (mutex c) (body order c)
  return (c, reply)

theorem lockFree_body (order : MapOrder) (c : Call) : LockFree (body order c) := by
  cases c with
  | feedPrice cpu ram now => exact fun _ _ _ _ _ => trivial
  | priceChangePct secondsAgo now =>
    exact ((silent_priceChangePctBody secondsAgo now).lockFree.focus _ _).bind fun _ => trivial
  | openPosition c => exact fun _ _ _ _ _ => trivial
  | settleFuture id now =>
    have hsettle : LockFree (settleBody id now) := by
      have hfound : LockFree (onMarket (.read fun market => market.futures.lookup id)) :=
        fun _ => trivial
      refine hfound.bind fun found => ?_
      cases found with
      | none => trivial
      | some future =>
        dsimp only
        split
        · trivial
        · exact fun _ => (lockFree_settleWith id now future _).focus _ _
    exact hsettle.bind fun _ => trivial
  | checkLiquidations =>
    have hliquidations : LockFree (liquidationsBody order) :=
      fun _ => (lockFree_liquidateWith order _).focus _ _
    exact hliquidations.bind fun _ => trivial
  | getFuture id => exact fun _ => trivial
  | openFuturesCount => exact (lockFree_openFuturesCountBody.focus _ _).bind fun _ => trivial

theorem perform_eq (order : MapOrder) (c : Call) :
    perform order c = .acquire (mutex c)
      ((body order c).bind fun reply => .release (mutex c) (.done (c, reply))) := by
  have hassoc := Prog.bind_assoc (body order c)
    (fun reply => .release (mutex c) (.done reply)) fun reply => .done (c, reply)
  exact congrArg (Prog.acquire (mutex c)) hassoc

/-- Threads that share an oracle and a market that are constructed for them. -/
def threads {T : Type} (order : MapOrder) (calls : T → List Call) :
    State T FuturesSystem Mutex (List (Call × Reply)) :=
  start (fun t => .session (perform order) [] (calls t)) new

theorem alone_onOracle {α : Type} (p : Prog ComputePriceOracle Mutex α)
    (system : FuturesSystem) :
    (onOracle p).alone system
      = ((p.alone system.oracle).1, { system with oracle := (p.alone system.oracle).2 }) :=
  Prog.alone_focus p FuturesSystem.oracle (fun system oracle => { system with oracle := oracle })
    (fun _ _ => rfl) (fun _ => rfl) (fun _ _ _ => rfl) system

theorem alone_onMarket {α : Type} (p : Prog ComputeFuturesMarket Mutex α)
    (system : FuturesSystem) :
    (onMarket p).alone system
      = ((p.alone system.market).1, { system with market := (p.alone system.market).2 }) :=
  Prog.alone_focus p FuturesSystem.market (fun system market => { system with market := market })
    (fun _ _ => rfl) (fun _ => rfl) (fun _ _ _ => rfl) system

theorem alone_settleBody (id : String) (now : Seconds) (system : FuturesSystem) :
    (settleBody id now).alone system
      = ((system.market.settleFuture system.oracle id now).1,
        { system with market := (system.market.settleFuture system.oracle id now).2 }) := by
  rw [settleBody, Prog.monad_bind, Prog.alone_bind, alone_onMarket, settleFuture]
  show Prog.alone (match system.market.futures.lookup id with
    | none => _
    | some future => _) system = _
  cases hlookup : system.market.futures.lookup id with
  | none => rfl
  | some future =>
    dsimp only
    split
    · rfl
    · show (onMarket (settleWith id now future system.oracle.currentIndex)).alone system = _
      rw [alone_onMarket, settleWith_alone hlookup]

/-- With no other thread about, a body does what the operation does. -/
theorem alone_body (order : MapOrder) (c : Call) (system : FuturesSystem) :
    (body order c).alone system = step order system c := by
  cases c with
  | priceChangePct secondsAgo now =>
    rw [body, Prog.monad_bind, Prog.alone_bind, alone_onOracle, priceChangePctBody_alone]
    rfl
  | openPosition c => cases c <;> rfl
  | settleFuture id now =>
    rw [body, Prog.monad_bind, Prog.alone_bind, alone_settleBody]
    rfl
  | checkLiquidations =>
    show Prog.alone ((onMarket (liquidateWith order system.oracle.currentIndex)).bind
      fun ids => .done (Reply.liquidated ids)) system = _
    rw [Prog.alone_bind, alone_onMarket, liquidateWith_alone]
    rfl
  | openFuturesCount =>
    rw [body, Prog.monad_bind, Prog.alone_bind, alone_onMarket, openFuturesCountBody_alone]
    rfl
  | _ => rfl

end FuturesSystem

end Membra

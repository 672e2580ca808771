/-
Compute futures.

`ComputePriceOracle` keeps the last hundred price feeds in a ring.
`ComputeFuturesMarket` opens positions at the oracle's index, settles them and
liquidates those whose collateral has run low.  Prices are exact rationals here.

The three functions that open a position move the record they have filled in
into the map and then return its id, which the move has left empty
(`movedFrom`).
-/
import MembraL3.Clock
import MembraL3.MapOrder
import MembraL3.Lib.Store
import Mathlib.Data.UInt

namespace Membra

inductive FutureType where
  | forwardContract
  | speculativeLong
  | speculativeShort
  deriving DecidableEq

inductive FutureStatus where
  | opened
  | settled
  | liquidated
  | expired
  deriving DecidableEq

structure ComputePricePoint where
  cpuPriceSol : ℚ
  ramPriceSol : ℚ
  computeIndex : ℚ
  timestamp : Seconds
  deriving DecidableEq

structure ComputeFuture where
  futureId : String
  traderAddress : String
  type : FutureType
  status : FutureStatus
  cpuCores : UInt64
  ramGb : UInt64
  entryPrice : ℚ
  targetPrice : ℚ
  leverage : ℚ
  collateralSol : ℚ
  notionalValue : ℚ
  openedAt : Seconds
  expiresAt : Seconds
  settledAt : Seconds
  pnl : ℚ
  deriving DecidableEq

/-! ### The oracle -/

/-- `price_history_` is a ring of `PRICE_HISTORY_SIZE` points, written next at
`price_index_`. -/
structure ComputePriceOracle where
  priceHistory : Vector ComputePricePoint 100
  priceIndex : Fin 100
  currentIndex : ℚ
  currentCpuPrice : ℚ
  currentRamPrice : ℚ

namespace ComputePriceOracle

def cpuWeight : ℚ := 3 / 5

def ramWeight : ℚ := 2 / 5

def new : ComputePriceOracle where
  priceHistory := Vector.replicate 100 ⟨0, 0, 0, 0⟩
  priceIndex := 0
  currentIndex := 1
  currentCpuPrice := 1 / 10
  currentRamPrice := 1 / 20

def feedPrice (oracle : ComputePriceOracle) (cpuPriceSol ramPriceSol : ℚ) (now : Seconds) :
    ComputePriceOracle :=
  let computeIndex := cpuPriceSol * cpuWeight + ramPriceSol * ramWeight
  { priceHistory := oracle.priceHistory.set oracle.priceIndex
      ⟨cpuPriceSol, ramPriceSol, computeIndex, now⟩
    priceIndex := oracle.priceIndex + 1
    currentIndex := computeIndex
    currentCpuPrice := cpuPriceSol
    currentRamPrice := ramPriceSol }

/-- The first store of `feed_price`, to the ring. -/
def setPoint (point : ComputePricePoint) (oracle : ComputePriceOracle) : ComputePriceOracle :=
  { oracle with priceHistory := oracle.priceHistory.set oracle.priceIndex point }

/-- The second, to `price_index_`. -/
def advance (oracle : ComputePriceOracle) : ComputePriceOracle :=
  { oracle with priceIndex := oracle.priceIndex + 1 }

def computeIndexForCpuRam (oracle : ComputePriceOracle) (cpuCores ramGb : UInt64) : ℚ :=
  cpuCores.toNat * oracle.currentCpuPrice + ramGb.toNat * oracle.currentRamPrice

/-- The last point of the ring, in the order of its slots, before `now - secondsAgo`. -/
def oldestPrice (oracle : ComputePriceOracle) (secondsAgo now : Seconds) : ℚ :=
  oracle.priceHistory.toList.foldl
    (fun oldest point =>
      if point.timestamp > 0 ∧ point.timestamp < now - secondsAgo then point.computeIndex
      else oldest) 0

def priceChangePct (oracle : ComputePriceOracle) (secondsAgo now : Seconds) : ℚ :=
  let oldest := oracle.oldestPrice secondsAgo now
  if oldest = 0 then 0 else (oracle.currentIndex - oldest) / oldest * 100

end ComputePriceOracle

/-! ### Positions -/

namespace ComputeFuture

/-- The record that a move leaves behind: its strings are empty. -/
def movedFrom (future : ComputeFuture) : ComputeFuture :=
  { future with futureId := "", traderAddress := "" }

/-- The size that settlement multiplies by. -/
def size (future : ComputeFuture) : ℚ :=
  future.cpuCores.toNat * (1 / 10) + future.ramGb.toNat * (1 / 20)

/-- What settling at `currentPrice` yields. -/
def settlementPnl (future : ComputeFuture) (currentPrice : ℚ) : ℚ :=
  match future.type with
  | .speculativeLong => (currentPrice - future.entryPrice) * future.leverage * future.size
  | .speculativeShort => (future.entryPrice - currentPrice) * future.leverage * future.size
  | .forwardContract => (future.targetPrice - currentPrice) * future.size

/-- What liquidation takes for the gain so far. -/
def unrealizedPnl (future : ComputeFuture) (currentPrice : ℚ) : ℚ :=
  match future.type with
  | .speculativeLong => (currentPrice - future.entryPrice) * future.leverage
  | .speculativeShort => (future.entryPrice - currentPrice) * future.leverage
  | .forwardContract => 0

/-- `collateral_ratio < MIN_COLLATERAL_RATIO`.  A quotient by zero is below it
where the dividend is negative. -/
def belowCollateral (future : ComputeFuture) (currentPrice : ℚ) : Bool :=
  let collateral := future.collateralSol + future.unrealizedPnl currentPrice
  if future.notionalValue = 0 then collateral < 0
  else collateral / future.notionalValue < 1 / 2

def settled (future : ComputeFuture) (currentPrice : ℚ) (now : Seconds) : ComputeFuture :=
  { future with
    pnl := future.settlementPnl currentPrice
    settledAt := now
    status := .settled }

def liquidated (future : ComputeFuture) : ComputeFuture :=
  { future with status := .liquidated, pnl := -future.collateralSol }

end ComputeFuture

/-! ### The market -/

structure ComputeFuturesMarket where
  futures : Store String ComputeFuture
  futureCounter : UInt64

namespace ComputeFuturesMarket

def new : ComputeFuturesMarket where
  futures := ∅
  futureCounter := 0

/-- Stores the record under its id, which uses up a number of the counter, and
returns the id of what is left of it. -/
def storeFuture (market : ComputeFuturesMarket) (future : ComputeFuture) :
    String × ComputeFuturesMarket :=
  (future.movedFrom.futureId,
    { futures := market.futures.assign future.futureId future
      futureCounter := market.futureCounter + 1 })

def openForward (market : ComputeFuturesMarket) (oracle : ComputePriceOracle)
    (traderAddress : String) (cpuCores ramGb : UInt64) (durationSeconds : Seconds)
    (collateralSol : ℚ) (now : Seconds) : String × ComputeFuturesMarket :=
  market.storeFuture
    { futureId := "fwd_" ++ toString market.futureCounter.toNat
      traderAddress := traderAddress
      type := .forwardContract
      status := .opened
      cpuCores := cpuCores
      ramGb := ramGb
      entryPrice := oracle.currentIndex
      targetPrice := oracle.currentIndex
      leverage := 1
      collateralSol := collateralSol
      notionalValue := oracle.computeIndexForCpuRam cpuCores ramGb
      openedAt := now
      expiresAt := now + durationSeconds
      settledAt := 0
      pnl := 0 }

/-- A speculative position, its id starting with `tag` and its target `targetFactor`
times the entry price. -/
def openSpeculative (market : ComputeFuturesMarket) (oracle : ComputePriceOracle) (tag : String)
    (type : FutureType) (targetFactor : ℚ) (traderAddress : String) (cpuCores ramGb : UInt64)
    (leverage collateralSol : ℚ) (durationSeconds now : Seconds) :
    String × ComputeFuturesMarket :=
  market.storeFuture
    { futureId := tag ++ toString market.futureCounter.toNat
      traderAddress := traderAddress
      type := type
      status := .opened
      cpuCores := cpuCores
      ramGb := ramGb
      entryPrice := oracle.currentIndex
      targetPrice := oracle.currentIndex * targetFactor
      leverage := leverage
      collateralSol := collateralSol
      notionalValue := oracle.computeIndexForCpuRam cpuCores ramGb * leverage
      openedAt := now
      expiresAt := now + durationSeconds
      settledAt := 0
      pnl := 0 }

def openLong (market : ComputeFuturesMarket) (oracle : ComputePriceOracle) :=
  market.openSpeculative oracle "long_" .speculativeLong (3 / 2)

def openShort (market : ComputeFuturesMarket) (oracle : ComputePriceOracle) :=
  market.openSpeculative oracle "short_" .speculativeShort (1 / 2)

/-- Returns the out parameter `pnl`, or `none` for `false`. -/
def settleFuture (market : ComputeFuturesMarket) (oracle : ComputePriceOracle) (futureId : String)
    (now : Seconds) : Option ℚ × ComputeFuturesMarket :=
  match market.futures.lookup futureId with
  | none => (none, market)
  | some future =>
    if future.status ≠ .opened then (none, market)
    else
      let future := future.settled oracle.currentIndex now
      (some future.pnl, { market with futures := market.futures.assign futureId future })

/-- The loop of `check_liquidations` over the keys of the map. -/
def liquidationLoop (currentPrice : ℚ) (futures : Store String ComputeFuture) :
    List String → List String × Store String ComputeFuture
  | [] => ([], futures)
  | id :: ids =>
    match futures.lookup id with
    | none => liquidationLoop currentPrice futures ids
    | some future =>
      if future.status = .opened ∧ future.belowCollateral currentPrice then
        let (liquidated, futures) :=
          liquidationLoop currentPrice (futures.assign id future.liquidated) ids
        (future.futureId :: liquidated, futures)
      else liquidationLoop currentPrice futures ids

def checkLiquidations (order : MapOrder) (market : ComputeFuturesMarket)
    (oracle : ComputePriceOracle) : List String × ComputeFuturesMarket :=
  let (liquidated, futures) :=
    liquidationLoop oracle.currentIndex market.futures (order.order market.futures.keys)
  (liquidated, { market with futures := futures })

def getFuture (market : ComputeFuturesMarket) (futureId : String) : Option ComputeFuture :=
  market.futures.lookup futureId

def openFuturesCount (market : ComputeFuturesMarket) : ℕ :=
  Store.count (fun future => future.status = .opened) market.futures

end ComputeFuturesMarket

/-! ### Calls -/

/-- The arguments of the three functions that open a position, with the reading of
the clock. -/
inductive OpenCall where
  | forward (traderAddress : String) (cpuCores ramGb : UInt64) (durationSeconds : Seconds)
      (collateralSol : ℚ) (now : Seconds)
  | long (traderAddress : String) (cpuCores ramGb : UInt64) (leverage collateralSol : ℚ)
      (durationSeconds now : Seconds)
  | short (traderAddress : String) (cpuCores ramGb : UInt64) (leverage collateralSol : ℚ)
      (durationSeconds now : Seconds)

def ComputeFuturesMarket.openPosition (market : ComputeFuturesMarket)
    (oracle : ComputePriceOracle) : OpenCall → String × ComputeFuturesMarket
  | .forward trader cpu ram duration collateral now =>
    market.openForward oracle trader cpu ram duration collateral now
  | .long trader cpu ram leverage collateral duration now =>
    market.openLong oracle trader cpu ram leverage collateral duration now
  | .short trader cpu ram leverage collateral duration now =>
    market.openShort oracle trader cpu ram leverage collateral duration now

/-- A market and the oracle it reads. -/
structure FuturesSystem where
  oracle : ComputePriceOracle
  market : ComputeFuturesMarket

namespace FuturesSystem

def new : FuturesSystem := ⟨.new, .new⟩

inductive Call where
  | feedPrice (cpuPriceSol ramPriceSol : ℚ) (now : Seconds)
  | priceChangePct (secondsAgo now : Seconds)
  | openPosition (c : OpenCall)
  | settleFuture (futureId : String) (now : Seconds)
  | checkLiquidations
  | getFuture (futureId : String)
  | openFuturesCount

inductive Reply where
  | fed
  | changed (percent : ℚ)
  | opened (futureId : String)
  | settled (pnl : Option ℚ)
  | liquidated (futureIds : List String)
  | future (future : Option ComputeFuture)
  | count (openFutures : ℕ)

def step (order : MapOrder) (system : FuturesSystem) : Call → Reply × FuturesSystem
  | .feedPrice cpu ram now =>
    (.fed, { system with oracle := system.oracle.feedPrice cpu ram now })
  | .priceChangePct secondsAgo now =>
    (.changed (system.oracle.priceChangePct secondsAgo now), system)
  | .openPosition c =>
    let (id, market) := system.market.openPosition system.oracle c
    (.opened id, { system with market := market })
  | .settleFuture futureId now =>
    let (pnl, market) := system.market.settleFuture system.oracle futureId now
    (.settled pnl, { system with market := market })
  | .checkLiquidations =>
    let (ids, market) := system.market.checkLiquidations order system.oracle
    (.liquidated ids, { system with market := market })
  | .getFuture futureId => (.future (system.market.getFuture futureId), system)
  | .openFuturesCount => (.count system.market.openFuturesCount, system)

end FuturesSystem

end Membra

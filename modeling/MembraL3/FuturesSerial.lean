/-
The futures market and its oracle, serialized.

A call on the market sees of the oracle what was published while it ran.  The calls on the
oracle have one order and those on the market another, and the threads share the two by a
protocol whose ghost is the ledger of the calls so far.

* `keeping_threads` — the threads keep to the protocol;
* `market_serializes` — whatever the schedule, they run to their end and have been served
  in the two orders;
* `not_sequential_fedOpening` — one order would not do.
-/
import MembraL3.FuturesSightings
import MembraL3.Lib.RelyGuarantee

namespace Membra

open Threads Runs

namespace FuturesSystem

open ComputePriceOracle ComputeFuturesMarket

/-! ### The protocol -/

/-- What has been called so far. -/
structure Ledger (T : Type) where
  /-- On the oracle; a feed from when it stores its first price. -/
  asked : List (T × Call × Reply)
  /-- How many prices have been stored. -/
  moment : ℕ
  /-- On the market. -/
  traded : List (T × (Call × Sighting) × Reply)

namespace Ledger

variable {T : Type}

def feeds (ledger : Ledger T) : List Feed := feedsOf ledger.asked

end Ledger

section

variable {T : Type} [DecidableEq T] {order : MapOrder} {t : T}

abbrev FuturesWorld (T : Type) : Type := World T FuturesSystem Mutex (Ledger T)

structure Inv (order : MapOrder) (w : FuturesWorld T) : Prop where
  asked : Recorded (step order) new w.ghost.asked
  traded : Recorded (trade order w.ghost.feeds) .new w.ghost.traded
  published : w.data.oracle.prices = published w.ghost.feeds w.ghost.moment
  stored : w.ghost.feeds.length = (w.ghost.moment + 2) / 3
  sorted : Ascending (sightings w.ghost.traded) w.ghost.moment
  oracle : w.owner .computePrices = none →
    w.data.oracle = fed w.ghost.feeds ∧ w.ghost.moment = 3 * w.ghost.feeds.length
  market : w.owner .futures = none →
    w.data.market = final (trade order w.ghost.feeds) .new (logged w.ghost.traded)

/-- What `t` may see others do. -/
structure Rely (t : T) (w w' : FuturesWorld T) : Prop where
  owner : ∀ l, w'.owner l = some t ↔ w.owner l = some t
  oracle : w.owner .computePrices = some t →
    w'.data.oracle = w.data.oracle ∧ w'.ghost.asked = w.ghost.asked ∧
      w'.ghost.moment = w.ghost.moment
  market : w.owner .futures = some t →
    w'.data.market = w.data.market ∧ w'.ghost.traded = w.ghost.traded
  asked : w.ghost.asked <+: w'.ghost.asked
  moment : w.ghost.moment ≤ w'.ghost.moment
  askedBy : w'.ghost.asked.filterMap (Atomic.ofThread t)
    = w.ghost.asked.filterMap (Atomic.ofThread t)
  tradedBy : w'.ghost.traded.filterMap (Atomic.ofThread t)
    = w.ghost.traded.filterMap (Atomic.ofThread t)

theorem Rely.refl (t : T) (w : FuturesWorld T) : Rely t w w :=
  ⟨fun _ => Iff.rfl, fun _ => ⟨rfl, rfl, rfl⟩, fun _ => ⟨rfl, rfl⟩, List.prefix_rfl, le_rfl, rfl,
    rfl⟩

theorem Rely.trans {w₁ w₂ w₃ : FuturesWorld T} (h : Rely t w₁ w₂) (h' : Rely t w₂ w₃) :
    Rely t w₁ w₃ where
  owner l := (h'.owner l).trans (h.owner l)
  oracle howner := by
    obtain ⟨horacle, hasked, hmoment⟩ := h.oracle howner
    obtain ⟨horacle', hasked', hmoment'⟩ := h'.oracle ((h.owner _).mpr howner)
    exact ⟨horacle'.trans horacle, hasked'.trans hasked, hmoment'.trans hmoment⟩
  market howner := by
    obtain ⟨hmarket, htraded⟩ := h.market howner
    obtain ⟨hmarket', htraded'⟩ := h'.market ((h.owner _).mpr howner)
    exact ⟨hmarket'.trans hmarket, htraded'.trans htraded⟩
  asked := h.asked.trans h'.asked
  moment := h.moment.trans h'.moment
  askedBy := h'.askedBy.trans h.askedBy
  tradedBy := h'.tradedBy.trans h.tradedBy

/-- How threads share the oracle and the market. -/
def protocol (order : MapOrder) : Protocol T FuturesSystem Mutex (Ledger T) where
  inv := Inv order
  rely := Rely
  refl := Rely.refl
  trans := Rely.trans

theorem Rely.feeds {w w' : FuturesWorld T} (h : Rely t w w') :
    w.ghost.feeds <+: w'.ghost.feeds :=
  (h.asked.map _).filterMap _

/-! ### What a thread knows -/

/-- What `t` has been replied is in the ledger, and its calls are at an end by `bound`. -/
structure Replied (t : T) (acc : List (Call × Reply)) (bound : ℕ) (w : FuturesWorld T) :
    Prop where
  asked : w.ghost.asked.filterMap (Atomic.ofThread t)
    = acc.filter fun r => mutex r.1 = .computePrices
  traded : (w.ghost.traded.filterMap (Atomic.ofThread t)).map (fun e => (e.1.1, e.2))
    = acc.filter fun r => mutex r.1 = .futures
  inTurn : ∃ last ≤ bound, InTurn w.ghost.asked t acc (seenBy t w.ghost.traded) last

/-- Between two calls, with `cs` to go. -/
structure Between (t : T) (calls : List Call) (acc : List (Call × Reply)) (cs : List Call)
    (w : FuturesWorld T) : Prop where
  owner : ∀ l, w.owner l ≠ some t
  made : acc.map Prod.fst ++ cs = calls
  replied : Replied t acc w.ghost.moment w

/-- What a call on the market has found: the replies to its thread, the ledger, the
market. -/
structure Visit (T : Type) where
  acc : List (Call × Reply)
  traded : List (T × (Call × Sighting) × Reply)
  initial : ComputeFuturesMarket

/-- In a call on the market, which is now `market`, after loads of `seen`. -/
structure Trading (order : MapOrder) (t : T) (visit : Visit T) (market : ComputeFuturesMarket)
    (sighting : Sighting) (seen : Prices) (w : FuturesWorld T) : Prop where
  owner : ∀ l, w.owner l = some t ↔ l = .futures
  market : w.data.market = market
  traded : w.ghost.traded = visit.traded
  initial : final (trade order w.ghost.feeds) .new (logged visit.traded) = visit.initial
  sees : sighting.prices w.ghost.feeds = seen
  range : (sighting.indexAt + 2) / 3 ≤ w.ghost.feeds.length
  sorted : Ascending (sightings visit.traded ++ sighting.moments) w.ghost.moment
  replied : Replied t visit.acc sighting.cpuAt w

variable {w w' : FuturesWorld T} {acc : List (Call × Reply)} {calls cs : List Call}
  {visit : Visit T} {market : ComputeFuturesMarket} {sighting : Sighting} {seen : Prices} {c : Call}

theorem Replied.mono {bound bound' : ℕ} (h : Replied t acc bound w) (hle : bound ≤ bound') :
    Replied t acc bound' w := by
  obtain ⟨last, hlast, hturn⟩ := h.inTurn
  exact ⟨h.asked, h.traded, last, hlast.trans hle, hturn⟩

theorem Rely.seenBy (h : Rely t w w') : seenBy t w'.ghost.traded = seenBy t w.ghost.traded := by
  rw [FuturesSystem.seenBy, FuturesSystem.seenBy, h.tradedBy]

theorem Replied.later {bound : ℕ} (h : Replied t acc bound w) (hrely : Rely t w w') :
    Replied t acc bound w' where
  asked := hrely.askedBy.trans h.asked
  traded := by rw [hrely.tradedBy, h.traded]
  inTurn := by
    obtain ⟨last, hlast, hturn⟩ := h.inTurn
    refine ⟨last, hlast, ?_⟩
    rw [hrely.seenBy]
    exact hturn.mono hrely.asked

theorem Between.later (h : Between t calls acc cs w) (hrely : Rely t w w') :
    Between t calls acc cs w' where
  owner l howner := h.owner l ((hrely.owner l).mp howner)
  made := h.made
  replied := (h.replied.later hrely).mono hrely.moment

theorem Trading.later (h : Trading order t visit market sighting seen w) (hrely : Rely t w w') :
    Trading order t visit market sighting seen w' := by
  obtain ⟨hmarket, htraded⟩ := hrely.market ((h.owner .futures).mpr rfl)
  obtain ⟨more, hfeeds⟩ := hrely.feeds
  constructor
  case owner => exact fun l => (hrely.owner l).trans (h.owner l)
  case market => exact hmarket.trans h.market
  case traded => exact htraded.trans h.traded
  case initial =>
    -- what others have fed since comes after all loads of these trades
    have hearlier : Ascending (sightings visit.traded) sighting.cpuAt :=
      (ascending_moments.mp h.sorted).1
    have hcpu := sighting.cpu_le.trans sighting.ram_le
    have hrange := h.range
    rw [← h.initial, ← hfeeds]
    refine (final_congr (fun c hc market => ?_) _).symm
    exact trade_append hearlier (by omega) more hc market
  case sees => rw [← hfeeds, Sighting.prices_append h.range, h.sees]
  case range => exact h.range.trans hrely.feeds.length_le
  case sorted => exact h.sorted.mono hrely.moment
  case replied => exact h.replied.later hrely

/-! ### Loads -/

/-- Everything is seen as it is now. -/
theorem Trading.look (hinv : Inv order w) (h : Trading order t visit market sighting seen w) :
    Trading order t visit market (.now w.ghost.moment) w.data.oracle.prices w where
  owner := h.owner
  market := h.market
  traded := h.traded
  initial := h.initial
  sees := hinv.published.symm
  range := hinv.stored.symm.le
  sorted := by
    obtain ⟨hsorted, hindex⟩ := ascending_moments.mp h.sorted
    refine ascending_moments.mpr ⟨hsorted.mono ?_, le_rfl⟩
    exact (sighting.cpu_le.trans sighting.ram_le).trans hindex
  replied := by
    obtain ⟨-, hindex⟩ := ascending_moments.mp h.sorted
    exact h.replied.mono ((sighting.cpu_le.trans sighting.ram_le).trans hindex)

/-- Memory and the index are. -/
theorem Trading.lookRam (hinv : Inv order w) (h : Trading order t visit market sighting seen w) :
    ∃ sighting', Trading order t visit market sighting'
      { w.data.oracle.prices with cpu := seen.cpu } w := by
  obtain ⟨hsorted, hindex⟩ := ascending_moments.mp h.sorted
  have hcpu : sighting.cpuAt ≤ w.ghost.moment :=
    (sighting.cpu_le.trans sighting.ram_le).trans hindex
  refine ⟨⟨sighting.cpuAt, w.ghost.moment, w.ghost.moment, hcpu, le_rfl⟩, h.owner, h.market,
    h.traded, h.initial, ?_, hinv.stored.symm.le, ascending_moments.mpr ⟨hsorted, le_rfl⟩,
    h.replied⟩
  rw [hinv.published, ← h.sees]
  rfl

/-- The index is. -/
theorem Trading.lookIndex (hinv : Inv order w) (h : Trading order t visit market sighting seen w) :
    ∃ sighting', Trading order t visit market sighting'
      { seen with index := w.data.oracle.prices.index } w := by
  obtain ⟨hsorted, hindex⟩ := ascending_moments.mp h.sorted
  refine ⟨⟨sighting.cpuAt, sighting.ramAt, w.ghost.moment, sighting.cpu_le,
    sighting.ram_le.trans hindex⟩, h.owner, h.market, h.traded, h.initial, ?_, hinv.stored.symm.le,
    ascending_moments.mpr ⟨hsorted, le_rfl⟩, h.replied⟩
  rw [hinv.published, ← h.sees]
  rfl

/-! ### Calls on the market -/

/-- The market belongs to the thread. -/
theorem Trading.allows (hinv : Inv order w) (h : Trading order t visit market sighting seen w)
    (market' : ComputeFuturesMarket) :
    let w' := w.acted (fun system => { system with market := market' }) w.ghost
    (protocol order).Allows t w w' ∧ Trading order t visit market' sighting seen w' := by
  have howner : w.owner .futures = some t := (h.owner .futures).mpr rfl
  refine ⟨⟨{ hinv with market := fun hfree => ?_ }, fun t' hne => ?_⟩,
    { h with
      market := rfl
      replied := ⟨h.replied.asked, h.replied.traded, h.replied.inTurn⟩ }⟩
  · exact absurd (hfree.symm.trans howner) (Option.some_ne_none t).symm
  · exact { Rely.refl t' w with
      market := fun howner' => absurd howner' (World.owner_ne howner hne) }

/-- What `c` replies when it sees `seen`, and what it leaves. -/
def Sold (order : MapOrder) (t : T) (visit : Visit T) (c : Call) (reply : Reply)
    (w : FuturesWorld T) : Prop :=
  ∃ sighting seen, (sell order seen visit.initial c).1 = reply ∧
    Trading order t visit (sell order seen visit.initial c).2 sighting seen w

theorem Sold.later {reply : Reply} (h : Sold order t visit c reply w) (hrely : Rely t w w') :
    Sold order t visit c reply w' := by
  obtain ⟨sighting, seen, hreply, htrading⟩ := h
  exact ⟨sighting, seen, hreply, htrading.later hrely⟩

theorem meets_onMarket {α : Type} {p : Prog ComputeFuturesMarket Mutex α} (hp : LockFree p)
    (h : Trading order t visit market sighting seen w) :
    Meets (protocol order) t (fun a w => a = (p.alone market).1 ∧
      Trading order t visit (p.alone market).2 sighting seen w) (onMarket p) w :=
  hp.meets_focus (fun market => Trading order t visit market sighting seen) (fun h => h.market)
    (fun h hrely _ => h.later hrely) (fun hinv h => h.allows hinv) h fun _ _ h => ⟨rfl, h⟩

/-- A reply that depends on what the program on the market has returned. -/
theorem meets_onMarket_reply {α : Type} {p : Prog ComputeFuturesMarket Mutex α} (hp : LockFree p)
    (f : α → Reply) (hinv : Inv order w)
    (h : Trading order t visit market sighting seen w)
    (hsell : sell order seen visit.initial c = (f (p.alone market).1, (p.alone market).2)) :
    Meets (protocol order) t (Sold order t visit c)
      ((onMarket p).bind fun a => .done (f a)) w := by
  refine (meets_onMarket hp h).bind hinv fun a w₁ _ hmid w₂ hrely _ => ?_
  obtain ⟨rfl, htrading⟩ := hmid
  refine Sold.later ⟨sighting, seen, by rw [hsell], ?_⟩ hrely
  rwa [hsell]

/-- A reply without any more steps. -/
theorem meets_done_reply {reply : Reply}
    (h : Trading order t visit market sighting seen w)
    (hsell : sell order seen visit.initial c = (reply, market)) :
    Meets (protocol order) t (Sold order t visit c) (.done reply) w := by
  intro w' hrely _
  refine Sold.later ⟨sighting, seen, by rw [hsell], ?_⟩ hrely
  rwa [hsell]

theorem meets_openBody (c : OpenCall)
    (h : Trading order t visit visit.initial sighting seen w) :
    Meets (protocol order) t (Sold order t visit (.openPosition c))
      (body order (.openPosition c)) w := by
  rw [body, Prog.monad_bind, openBody, Prog.monad_bind, Prog.bind_assoc]
  -- the load of the price of cores
  refine meets_read_bind fun w₁ hrely₁ hinv₁ => ?_
  have h₁ := (h.later hrely₁).look hinv₁
  rw [Prog.monad_bind, Prog.bind_assoc]
  -- that of memory, perhaps of a later feed
  refine meets_read_bind fun w₂ hrely₂ hinv₂ => ?_
  obtain ⟨sighting₂, h₂⟩ := (h₁.later hrely₂).lookRam hinv₂
  rw [Prog.monad_bind, Prog.bind_assoc]
  -- the id
  have hcounted : LockFree (Prog.atomically (nextFutureId c.tag) : Prog _ Mutex String) :=
    fun _ => trivial
  refine (meets_onMarket hcounted h₂).bind hinv₂ fun id w₃ hinv₃ hmid => ?_
  obtain ⟨rfl, h₃⟩ := hmid
  rw [Prog.monad_bind, Prog.bind_assoc]
  -- the load of the entry price, and the store
  refine meets_read_bind fun w₄ hrely₄ hinv₄ => ?_
  obtain ⟨sighting₄, h₄⟩ := (h₃.later hrely₄).lookIndex hinv₄
  have hstored : ∀ future, LockFree (Prog.write (store future) : Prog _ Mutex Unit) :=
    fun future => lockFree_write _
  rw [Prog.monad_bind, Prog.bind_assoc]
  exact meets_onMarket_reply (hstored _) _ hinv₄ h₄ (by cases c <;> rfl)

theorem meets_settleBody (id : String) (now : Seconds) (hinv : Inv order w)
    (h : Trading order t visit visit.initial sighting seen w) :
    Meets (protocol order) t (Sold order t visit (.settleFuture id now))
      (body order (.settleFuture id now)) w := by
  rw [body, Prog.monad_bind, settleBody, Prog.monad_bind, Prog.bind_assoc]
  refine (meets_onMarket (lockFree_read _) h).bind hinv fun found w₁ hinv₁ hmid => ?_
  obtain ⟨hfound, h₁⟩ := hmid
  change Trading order t visit visit.initial sighting seen w₁ at h₁
  have hlookup : visit.initial.futures.lookup id = found := hfound.symm
  -- only an open position is settled, and only then is the price loaded
  cases found with
  | none =>
    refine meets_done_reply h₁ ?_
    rw [sell, step, settleFuture, hlookup]
  | some future =>
    dsimp only
    split
    next hclosed =>
      refine meets_done_reply h₁ ?_
      rw [sell, step, settleFuture, hlookup]
      dsimp only
      rw [if_pos hclosed]
    next hopen =>
      rw [Prog.monad_bind, Prog.bind_assoc]
      refine meets_read_bind fun w₂ hrely₂ hinv₂ => ?_
      obtain ⟨sighting₂, h₂⟩ := (h₁.later hrely₂).lookIndex hinv₂
      refine meets_onMarket_reply (lockFree_settleWith id now future _) _ hinv₂ h₂ ?_
      rw [settleWith_alone hlookup, sell, step, settleFuture, hlookup]
      dsimp only
      rw [if_neg hopen]
      rfl

theorem meets_liquidationsBody
    (h : Trading order t visit visit.initial sighting seen w) :
    Meets (protocol order) t (Sold order t visit .checkLiquidations)
      (body order .checkLiquidations) w := by
  rw [body, Prog.monad_bind, liquidationsBody, Prog.monad_bind, Prog.bind_assoc]
  refine meets_read_bind fun w₁ hrely₁ hinv₁ => ?_
  obtain ⟨sighting₁, h₁⟩ := (h.later hrely₁).lookIndex hinv₁
  refine meets_onMarket_reply (lockFree_liquidateWith order _) _ hinv₁ h₁ ?_
  rw [liquidateWith_alone]
  rfl

/-- What each call on the market does. -/
theorem meets_body (hc : mutex c = .futures) (hinv : Inv order w)
    (h : Trading order t visit visit.initial sighting seen w) :
    Meets (protocol order) t (Sold order t visit c) (body order c) w := by
  cases c with
  | feedPrice cpu ram now => cases hc
  | priceChangePct secondsAgo now => cases hc
  | openPosition c => exact meets_openBody c h
  | settleFuture id now => exact meets_settleBody id now hinv h
  | checkLiquidations => exact meets_liquidationsBody h
  | getFuture id =>
    refine meets_onMarket_reply (lockFree_read fun market => market.getFuture id) _ hinv h ?_
    rfl
  | openFuturesCount =>
    refine meets_onMarket_reply lockFree_openFuturesCountBody _ hinv h ?_
    rw [openFuturesCountBody_alone]
    rfl

/-! ### Taking and leaving the market -/

/-- The market is taken as the trades so far have left it. -/
theorem Between.trading (hinv : Inv order w) (h : Between t calls acc cs w)
    (hfree : w.owner .futures = none) :
    let w' := w.passed .futures (some t) w.ghost
    (protocol order).Allows t w w' ∧
      Trading order t ⟨acc, w.ghost.traded, w.data.market⟩ w.data.market (.now w.ghost.moment)
        w.data.oracle.prices w' := by
  have hnone : ∀ t', w.owner .futures ≠ some t' := fun t' => by
    rw [hfree]
    exact (Option.some_ne_none t').symm
  refine ⟨⟨{ hinv with oracle := fun hfree' => hinv.oracle ?_, market := fun hfree' => ?_ },
    fun t' hne => ?_⟩, ?_⟩
  · rwa [World.passed_owner_ne w _ _ (by decide)] at hfree'
  · rw [World.passed_owner_self] at hfree'
    exact absurd hfree' (Option.some_ne_none t)
  · refine { Rely.refl t' w with
      owner := w.passed_owner_iff _ _ (hnone t') (fun heq => hne (Option.some.inj heq).symm) _ }
  constructor
  case owner => exact w.passed_owner_some _ h.owner _
  case market => rfl
  case traded => rfl
  case initial => exact (hinv.market hfree).symm
  case sees => exact hinv.published.symm
  case range => exact hinv.stored.symm.le
  case sorted => exact ascending_moments.mpr ⟨hinv.sorted, le_rfl⟩
  case replied => exact ⟨h.replied.asked, h.replied.traded, h.replied.inTurn⟩

/-- The market is left, and the trade is in the ledger. -/
theorem Sold.left {reply : Reply} (hinv : Inv order w) (h : Sold order t visit c reply w)
    (hmade : visit.acc.map Prod.fst ++ c :: cs = calls) (hc : mutex c = .futures) :
    ∃ g, (protocol order).Allows t w (w.passed .futures none g) ∧
      Between t calls (visit.acc ++ [(c, reply)]) cs (w.passed .futures none g) := by
  obtain ⟨sighting, seen, hreply, h⟩ := h
  have howner : w.owner .futures = some t := (h.owner _).mpr rfl
  have hother : ∀ t', t' ≠ t → w.owner .futures ≠ some t' := fun t' hne =>
    World.owner_ne howner hne
  -- the ledger gives this reply too, from the market as it was taken
  have htrade : trade order w.ghost.feeds (final (trade order w.ghost.feeds) .new
      (logged visit.traded)) (c, sighting) = sell order seen visit.initial c := by
    rw [h.initial, trade, h.sees]
  have hrecorded := hinv.traded
  rw [h.traded] at hrecorded
  refine ⟨{ w.ghost with traded := visit.traded ++ [(t, (c, sighting), reply)] },
    ⟨{ hinv with traded := ?_, sorted := ?_, oracle := fun hfree => hinv.oracle ?_,
                 market := fun _ => ?_ }, fun t' hne => ?_⟩, ?_⟩
  · have happend := hrecorded.append t (c, sighting)
    rwa [htrade, hreply] at happend
  · show Ascending (sightings (visit.traded ++ [(t, (c, sighting), reply)])) w.ghost.moment
    rw [sightings, List.flatMap_append, List.flatMap_singleton]
    exact h.sorted
  · rwa [World.passed_owner_ne w _ _ (by decide)] at hfree
  · show w.data.market = final _ _ (logged (visit.traded ++ [(t, (c, sighting), reply)]))
    rw [logged_append, final_append, h.market, ← htrade]
    rfl
  · refine { Rely.refl t' w with
      owner := w.passed_owner_iff _ _ (hother t' hne) (Option.some_ne_none t').symm _
      market := fun heq => absurd heq (hother t' hne)
      tradedBy := ?_ }
    show List.filterMap _ (visit.traded ++ [(t, (c, sighting), reply)]) = _
    rw [h.traded]
    exact Atomic.filterMap_append_of_ne visit.traded hne [((c, sighting), reply)]
  constructor
  case owner => exact w.passed_owner_none _ h.owner _
  case made => rw [← hmade, List.map_append, List.append_assoc, List.map_singleton,
    List.singleton_append]
  case replied =>
    have hprices : mutex c ≠ .computePrices := by
      rw [hc]
      decide
    constructor
    · rw [List.filter_append, List.filter_singleton]
      simp only [hprices, decide_false, cond_false, List.append_nil]
      exact h.replied.asked
    · show ((visit.traded ++ [(t, (c, sighting), reply)]).filterMap _).map _ = _
      rw [List.filterMap_append, List.map_append, ← h.traded, h.replied.traded, List.filter_append,
        List.filter_singleton]
      simp [hc]
    · obtain ⟨last, hlast, hturn⟩ := h.replied.inTurn
      have hseen : seenBy t (visit.traded ++ [(t, (c, sighting), reply)])
          = seenBy t w.ghost.traded ++ [sighting] := by
        rw [seenBy, List.filterMap_append, List.map_append, h.traded, seenBy]
        simp
      refine ⟨sighting.indexAt, (ascending_moments.mp h.sorted).2, ?_⟩
      show InTurn _ t _ (seenBy t (visit.traded ++ _)) _
      rw [hseen]
      exact .trade hturn hc hlast

/-- A call on the market. -/
theorem meets_trade (hc : mutex c = .futures) (h : Between t calls acc (c :: cs) w) :
    Meets (protocol order) t (fun a => Between t calls (acc ++ [a]) cs) (perform order c) w := by
  rw [perform_eq, hc]
  intro w₁ hrely₁ hinv₁ hfree
  have h₁ := h.later hrely₁
  obtain ⟨hallows, htrading⟩ := h₁.trading hinv₁ hfree
  refine ⟨w₁.ghost, hallows, (meets_body hc hallows.inv htrading).bind hallows.inv ?_⟩
  intro reply w₂ _ hsold w₃ hrely₃ hinv₃
  obtain ⟨g, hleft, hbetween⟩ := (hsold.later hrely₃).left hinv₃ h.made hc
  exact ⟨g, hleft, fun w₄ hrely₄ _ => hbetween.later hrely₄⟩

/-! ### Calls on the oracle -/

/-- In a call on the oracle, which is now `oracle`; of the ledger only `pending` is of the
call. -/
structure Asking (t : T) (acc pending : List (Call × Reply)) (asked : List (T × Call × Reply))
    (moment : ℕ) (oracle : ComputePriceOracle) (w : FuturesWorld T) : Prop where
  owner : ∀ l, w.owner l = some t ↔ l = .computePrices
  oracle : w.data.oracle = oracle
  inTurn : ∃ taken last, asked = taken ++ pending.map (Prod.mk t) ∧
    last ≤ 3 * (feedsOf taken).length ∧ InTurn taken t acc (seenBy t w.ghost.traded) last
  asked : w.ghost.asked = asked
  moment : w.ghost.moment = moment
  askedBy : w.ghost.asked.filterMap (Atomic.ofThread t)
    = (acc.filter fun r => mutex r.1 = .computePrices) ++ pending
  tradedBy : (w.ghost.traded.filterMap (Atomic.ofThread t)).map (fun e => (e.1.1, e.2))
    = acc.filter fun r => mutex r.1 = .futures

variable {asked : List (T × Call × Reply)} {moment : ℕ} {oracle : ComputePriceOracle}
  {pending : List (Call × Reply)}

theorem Asking.later (h : Asking t acc pending asked moment oracle w) (hrely : Rely t w w') :
    Asking t acc pending asked moment oracle w' := by
  obtain ⟨horacle, hasked, hmoment⟩ := hrely.oracle ((h.owner _).mpr rfl)
  constructor
  case owner => exact fun l => (hrely.owner l).trans (h.owner l)
  case oracle => exact horacle.trans h.oracle
  case asked => exact hasked.trans h.asked
  case moment => exact hmoment.trans h.moment
  case askedBy => rw [hrely.askedBy, h.askedBy]
  case tradedBy => rw [hrely.tradedBy, h.tradedBy]
  case inTurn =>
    rw [hrely.seenBy]
    exact h.inTurn

/-- A store of the thread that has the oracle, with what it adds to the ledger. -/
theorem Asking.stores (hinv : Inv order w) (h : Asking t acc pending asked moment oracle w)
    {oracle' : ComputePriceOracle} (more : List (Call × Reply)) {moment' : ℕ}
    (hmoment : moment ≤ moment')
    (hrecorded : Recorded (step order) new (asked ++ more.map (Prod.mk t)))
    (hpublished : oracle'.prices = published (feedsOf (asked ++ more.map (Prod.mk t))) moment')
    (hstored : (feedsOf (asked ++ more.map (Prod.mk t))).length = (moment' + 2) / 3) :
    let w' := w.acted (fun system => { system with oracle := oracle' })
      { w.ghost with asked := asked ++ more.map (Prod.mk t), moment := moment' }
    (protocol order).Allows t w w' ∧
      Asking t acc (pending ++ more) (asked ++ more.map (Prod.mk t)) moment' oracle' w' := by
  have howner : w.owner .computePrices = some t := (h.owner _).mpr rfl
  have hfeeds : feedsOf (asked ++ more.map (Prod.mk t))
      = w.ghost.feeds ++ (feedsOf (more.map (Prod.mk t))) := by
    rw [Ledger.feeds, h.asked, feedsOf, feedsOf, feedsOf, logged_append, List.filterMap_append]
  -- the trades so far have seen nothing of what is fed now
  have htrade : ∀ c ∈ logged w.ghost.traded, ∀ market, trade order w.ghost.feeds market c
      = trade order (feedsOf (asked ++ more.map (Prod.mk t))) market c := by
    intro c hc market
    rw [hfeeds]
    exact trade_append hinv.sorted hinv.stored.symm.le _ hc market
  refine ⟨⟨⟨hrecorded, hinv.traded.congr htrade, hpublished, hstored, hinv.sorted.mono ?_, ?_, ?_⟩,
    fun t' hne => ?_⟩, ?_⟩
  · rwa [h.moment]
  · exact fun hfree => absurd (hfree.symm.trans howner) (Option.some_ne_none t).symm
  · exact fun hfree => (hinv.market hfree).trans (final_congr htrade _)
  · refine { Rely.refl t' w with
      oracle := fun howner' => absurd howner' (World.owner_ne howner hne)
      asked := ?_
      moment := ?_
      askedBy := ?_ }
    · rw [h.asked]
      exact List.prefix_append ..
    · rwa [h.moment]
    · rw [h.asked]
      exact Atomic.filterMap_append_of_ne asked hne more
  constructor
  case owner => exact h.owner
  case oracle => rfl
  case asked => rfl
  case moment => rfl
  case askedBy =>
    have hadded := Atomic.filterMap_append_self asked t more
    rwa [← h.asked, h.askedBy, List.append_assoc, h.asked] at hadded
  case tradedBy => exact h.tradedBy
  case inTurn =>
    obtain ⟨taken, last, hasked, hlast, hturn⟩ := h.inTurn
    refine ⟨taken, last, ?_, hlast, hturn⟩
    rw [hasked, List.map_append, List.append_assoc]

/-- A store that publishes nothing. -/
theorem Asking.storesSilently (hinv : Inv order w) (h : Asking t acc pending asked moment oracle w)
    {oracle' : ComputePriceOracle} (hprices : oracle'.prices = oracle.prices) :
    let w' := w.acted (fun system => { system with oracle := oracle' }) w.ghost
    (protocol order).Allows t w w' ∧ Asking t acc pending asked moment oracle' w' := by
  have hrecorded := hinv.asked
  have hpublished := hinv.published
  have hstored := hinv.stored
  rw [Ledger.feeds, h.asked, h.moment] at hpublished hstored
  rw [h.asked] at hrecorded
  rw [h.oracle, ← hprices] at hpublished
  have hghost : { w.ghost with asked := asked ++ [].map (Prod.mk t), moment := moment }
      = w.ghost := by
    rw [List.map_nil, List.append_nil, ← h.asked, ← h.moment]
  have hstep := h.stores hinv [] le_rfl (by simpa using hrecorded) (by simpa using hpublished)
    (by simpa using hstored)
  rw [hghost, List.map_nil, List.append_nil, List.append_nil] at hstep
  exact hstep

/-- The oracle is taken as the calls so far have left it. -/
theorem Between.asking (hinv : Inv order w) (h : Between t calls acc cs w)
    (hfree : w.owner .computePrices = none) :
    let w' := w.passed .computePrices (some t) w.ghost
    (protocol order).Allows t w w' ∧
      Asking t acc [] w.ghost.asked (3 * w.ghost.feeds.length) (fed w.ghost.feeds) w' := by
  have hnone : ∀ t', w.owner .computePrices ≠ some t' := fun t' => by
    rw [hfree]
    exact (Option.some_ne_none t').symm
  -- a free oracle is between two feeds
  obtain ⟨horacle, hmoment⟩ := hinv.oracle hfree
  refine ⟨⟨{ hinv with oracle := fun hfree' => ?_, market := fun hfree' => hinv.market ?_ },
    fun t' hne => ?_⟩, ?_⟩
  · rw [World.passed_owner_self] at hfree'
    exact absurd hfree' (Option.some_ne_none t)
  · rwa [World.passed_owner_ne w _ _ (by decide)] at hfree'
  · refine { Rely.refl t' w with
      owner := w.passed_owner_iff _ _ (hnone t') (fun heq => hne (Option.some.inj heq).symm) _ }
  constructor
  case owner => exact w.passed_owner_some _ h.owner _
  case oracle => exact horacle
  case asked => rfl
  case moment => exact hmoment
  case askedBy => exact h.replied.asked.trans (List.append_nil _).symm
  case tradedBy => exact h.replied.traded
  case inTurn =>
    obtain ⟨last, hlast, hturn⟩ := h.replied.inTurn
    exact ⟨w.ghost.asked, last, (List.append_nil _).symm, hlast.trans hmoment.le, hturn⟩

/-- The oracle is left between two feeds, with the call in the ledger. -/
theorem Asking.left (hinv : Inv order w) (h : Asking t acc pending asked moment oracle w)
    (more : List (Call × Reply)) {reply : Reply} (hmore : pending ++ more = [(c, reply)])
    (hrecorded : Recorded (step order) new (asked ++ more.map (Prod.mk t)))
    (hfeeds : feedsOf (asked ++ more.map (Prod.mk t)) = feedsOf asked)
    (horacle : oracle = fed (feedsOf asked)) (hmoment : moment = 3 * (feedsOf asked).length)
    (hmade : acc.map Prod.fst ++ c :: cs = calls) (hc : mutex c = .computePrices) :
    let w' := w.passed .computePrices none { w.ghost with asked := asked ++ more.map (Prod.mk t) }
    (protocol order).Allows t w w' ∧ Between t calls (acc ++ [(c, reply)]) cs w' := by
  have howner : w.owner .computePrices = some t := (h.owner _).mpr rfl
  have hother : ∀ t', t' ≠ t → w.owner .computePrices ≠ some t' := fun t' hne =>
    World.owner_ne howner hne
  have hsame : feedsOf (asked ++ more.map (Prod.mk t)) = w.ghost.feeds := by
    rw [hfeeds, Ledger.feeds, h.asked]
  refine ⟨⟨⟨hrecorded, ?_, ?_, ?_, hinv.sorted, fun _ => ⟨?_, ?_⟩, fun hfree => ?_⟩,
    fun t' hne => ?_⟩, ?_⟩
  · show Recorded (trade order (feedsOf (asked ++ _))) _ _
    rw [hsame]
    exact hinv.traded
  · show _ = published (feedsOf (asked ++ _)) _
    rw [hsame]
    exact hinv.published
  · show (feedsOf (asked ++ _)).length = _
    rw [hsame]
    exact hinv.stored
  · show _ = fed (feedsOf (asked ++ _))
    rw [hfeeds, ← horacle]
    exact h.oracle
  · show _ = 3 * (feedsOf (asked ++ _)).length
    rw [hfeeds, ← hmoment]
    exact h.moment
  · show _ = final (trade order (feedsOf (asked ++ _))) _ _
    rw [hsame]
    refine hinv.market ?_
    rwa [World.passed_owner_ne w _ _ (by decide)] at hfree
  · refine { Rely.refl t' w with
      owner := w.passed_owner_iff _ _ (hother t' hne) (Option.some_ne_none t').symm _
      oracle := fun heq => absurd heq (hother t' hne)
      asked := ?_
      askedBy := ?_ }
    · rw [h.asked]
      exact List.prefix_append ..
    · rw [h.asked]
      exact Atomic.filterMap_append_of_ne asked hne more
  constructor
  case owner => exact w.passed_owner_none _ h.owner _
  case made => rw [← hmade, List.map_append, List.append_assoc, List.map_singleton,
    List.singleton_append]
  case replied =>
    constructor
    · show List.filterMap _ (asked ++ more.map (Prod.mk t)) = _
      rw [Atomic.filterMap_append_self, ← h.asked, h.askedBy, List.append_assoc, hmore,
        List.filter_append, List.filter_singleton]
      simp [hc]
    · show List.map _ (w.ghost.traded.filterMap _) = _
      rw [h.tradedBy, List.filter_append, List.filter_singleton]
      simp [hc]
    · obtain ⟨taken, last, hasked, hlast, hturn⟩ := h.inTurn
      have hplace : asked ++ more.map (Prod.mk t) = taken ++ [(t, (c, reply))] := by
        rw [hasked, List.append_assoc, ← List.map_append, hmore, List.map_singleton]
      have hearlier : taken.filterMap (Atomic.ofThread t)
          = acc.filter fun r => mutex r.1 = .computePrices := by
        have hby := h.askedBy
        rw [h.asked, hasked, Atomic.filterMap_append_self] at hby
        exact List.append_cancel_right hby
      have hlength : 3 * (feedsOf (taken ++ [(t, (c, reply))])).length = w.ghost.moment := by
        rw [← hplace, hfeeds, ← hmoment, h.moment]
      refine ⟨_, hlength.le, ?_⟩
      show InTurn (asked ++ _) t _ _ _
      rw [hplace]
      exact .ask (hturn.mono (List.prefix_append ..)) rfl hearlier hlast

variable {α : Type} {post : α → FuturesWorld T → Prop} {k : Unit → Prog FuturesSystem Mutex α}

omit [DecidableEq T] in
theorem acted_oracle (h : w.data.oracle = oracle) (f : ComputePriceOracle → ComputePriceOracle)
    (g : Ledger T) :
    w.acted (fun system => { system with oracle := f system.oracle }) g
      = w.acted (fun system => { system with oracle := f oracle }) g := by
  rw [World.acted, World.acted, h]

theorem meets_store (f : ComputePriceOracle → ComputePriceOracle) (more : List (Call × Reply))
    (moment' : ℕ) (h : Asking t acc pending asked moment oracle w) (hmoment : moment ≤ moment')
    (hrecorded : Recorded (step order) new (asked ++ more.map (Prod.mk t)))
    (hpublished : (f oracle).prices = published (feedsOf (asked ++ more.map (Prod.mk t))) moment')
    (hstored : (feedsOf (asked ++ more.map (Prod.mk t))).length = (moment' + 2) / 3)
    (hk : ∀ w', Inv order w' →
      Asking t acc (pending ++ more) (asked ++ more.map (Prod.mk t)) moment' (f oracle) w' →
      Meets (protocol order) t post (k ()) w') :
    Meets (protocol order) t post ((onOracle (.write f)).bind k) w := by
  intro w₁ hrely hinv
  have h₁ := h.later hrely
  obtain ⟨hallows, hasking⟩ := h₁.stores hinv more hmoment hrecorded hpublished hstored
  refine ⟨{ w₁.ghost with asked := asked ++ more.map (Prod.mk t), moment := moment' }, ?_, ?_⟩
  · exact (acted_oracle h₁.oracle f _).symm ▸ hallows
  · exact (acted_oracle h₁.oracle f _).symm ▸ hk _ hallows.inv hasking

theorem meets_store_silently (f : ComputePriceOracle → ComputePriceOracle)
    (h : Asking t acc pending asked moment oracle w) (hprices : (f oracle).prices = oracle.prices)
    (hk : ∀ w', Inv order w' → Asking t acc pending asked moment (f oracle) w' →
      Meets (protocol order) t post (k ()) w') :
    Meets (protocol order) t post ((onOracle (.write f)).bind k) w := by
  intro w₁ hrely hinv
  have h₁ := h.later hrely
  obtain ⟨hallows, hasking⟩ := h₁.storesSilently hinv hprices
  refine ⟨w₁.ghost, ?_, ?_⟩
  · exact (acted_oracle h₁.oracle f _).symm ▸ hallows
  · exact (acted_oracle h₁.oracle f _).symm ▸ hk _ hallows.inv hasking

/-- The store of another price of the same feed. -/
theorem meets_store_price (f : ComputePriceOracle → ComputePriceOracle) (moment' : ℕ)
    (h : Asking t acc pending asked moment oracle w) (hmoment : moment ≤ moment')
    (hrecorded : Recorded (step order) new asked)
    (hpublished : (f oracle).prices = published (feedsOf asked) moment')
    (hstored : (feedsOf asked).length = (moment' + 2) / 3)
    (hk : ∀ w', Inv order w' → Asking t acc pending asked moment' (f oracle) w' →
      Meets (protocol order) t post (k ()) w') :
    Meets (protocol order) t post ((onOracle (.write f)).bind k) w := by
  have hnil : asked ++ [].map (Prod.mk t) = asked := by rw [List.map_nil, List.append_nil]
  refine meets_store f [] moment' h hmoment ?_ ?_ ?_ fun w' hinv h' => hk w' hinv ?_
  · rwa [hnil]
  · rwa [hnil]
  · rwa [hnil]
  · rwa [hnil, List.append_nil] at h'

/-- `feed_price` stores a point, and then the three prices. -/
theorem meets_feed (cpu ram : ℚ) (now : Seconds)
    (h : Between t calls acc (.feedPrice cpu ram now :: cs) w) :
    Meets (protocol order) t (fun a => Between t calls (acc ++ [a]) cs)
      (perform order (.feedPrice cpu ram now)) w := by
  let feed : Feed := (cpu, ram, now)
  rw [perform_eq]
  intro w₁ hrely₁ hinv₁ hfree
  have h₁ := h.later hrely₁
  obtain ⟨hallows, hasking⟩ := h₁.asking hinv₁ hfree
  refine ⟨w₁.ghost, hallows, ?_⟩
  have hrecorded := hinv₁.asked.append t (.feedPrice cpu ram now)
  have hlog : feedsOf (w₁.ghost.asked ++ [(t, Call.feedPrice cpu ram now, Reply.fed)])
      = w₁.ghost.feeds ++ [feed] := by
    rw [feedsOf, logged_append, List.filterMap_append]
    rfl
  have hlength : (w₁.ghost.feeds ++ [feed]).length = w₁.ghost.feeds.length + 1 :=
    List.length_append
  simp only [body, feedPriceBody, Prog.monad_bind, Prog.bind_assoc, Prog.monad_pure,
    Prog.done_bind]
  -- no call on the market reads the ring or its index
  refine meets_store_silently _ hasking rfl fun w₂ _ h₂ => ?_
  refine meets_store_silently _ h₂ rfl fun w₃ _ h₃ => ?_
  -- from its first price on, the feed is among those asked
  refine meets_store _ [(.feedPrice cpu ram now, .fed)] (3 * w₁.ghost.feeds.length + 1) h₃
    (by omega) hrecorded ?_ (by rw [List.map_singleton, hlog]; omega) fun w₄ _ h₄ => ?_
  · rw [List.map_singleton, hlog, published_index, fed_append]
    rfl
  refine meets_store_price _ (3 * w₁.ghost.feeds.length + 2) h₄ (by omega) hrecorded ?_
    (by rw [List.map_singleton, hlog]; omega) fun w₅ _ h₅ => ?_
  · rw [List.map_singleton, hlog, published_cpu, fed_append]
    rfl
  have hall : 3 * w₁.ghost.feeds.length + 3 = 3 * (w₁.ghost.feeds ++ [feed]).length := by omega
  refine meets_store_price _ (3 * w₁.ghost.feeds.length + 3) h₅ (by omega) hrecorded ?_
    (by rw [List.map_singleton, hlog]; omega) fun w₆ _ h₆ => ?_
  · rw [List.map_singleton, hlog, hall, published_all, fed_append]
    rfl
  intro w₇ hrely₇ hinv₇
  have h₇ := h₆.later hrely₇
  rw [List.nil_append, List.map_singleton] at h₇
  have hfed : setRamPrice ram (setCpuPrice cpu (setIndex (cpu * cpuWeight + ram * ramWeight)
      (advance (setPoint ⟨cpu, ram, cpu * cpuWeight + ram * ramWeight, now⟩
        (fed w₁.ghost.feeds)))))
      = fed (feedsOf (w₁.ghost.asked ++ [(t, Call.feedPrice cpu ram now, Reply.fed)])) := by
    rw [hlog, fed_append]
    rfl
  obtain ⟨hleft, hbetween⟩ := h₇.left hinv₇ [] rfl
    (by rw [List.map_nil, List.append_nil]; exact hrecorded) (by simp) hfed
    (by rw [hlog]; omega) h.made rfl
  exact ⟨_, hleft, fun w₈ hrely₈ _ => hbetween.later hrely₈⟩

/-- The oracle after any calls is that after their feeds. -/
theorem oracle_final (order : MapOrder) (calls : List Call) :
    (final (step order) new calls).oracle = fed (calls.filterMap feedOf) := by
  have hstep : ∀ (cs : List Call) (system : FuturesSystem), (final (step order) system cs).oracle
      = (cs.filterMap feedOf).foldl (fun oracle feed => oracle.feedPrice feed.1 feed.2.1 feed.2.2)
        system.oracle := by
    intro cs
    induction cs with
    | nil => exact fun _ => rfl
    | cons c cs ih =>
      intro system
      rw [final_cons, ih]
      cases c <;> rfl
  exact hstep calls new

/-- `price_change_pct` reads the oracle between two feeds. -/
theorem meets_change (secondsAgo now : Seconds)
    (h : Between t calls acc (.priceChangePct secondsAgo now :: cs) w) :
    Meets (protocol order) t (fun a => Between t calls (acc ++ [a]) cs)
      (perform order (.priceChangePct secondsAgo now)) w := by
  rw [perform_eq]
  intro w₁ hrely₁ hinv₁ hfree
  have h₁ := h.later hrely₁
  obtain ⟨hallows, hasking⟩ := h₁.asking hinv₁ hfree
  refine ⟨w₁.ghost, hallows, ?_⟩
  have hrecorded := hinv₁.asked.append t (.priceChangePct secondsAgo now)
  have hreply : (step order (final (step order) new (logged w₁.ghost.asked))
      (.priceChangePct secondsAgo now)).1
      = .changed ((fed w₁.ghost.feeds).priceChangePct secondsAgo now) := by
    rw [step, oracle_final]
    rfl
  rw [hreply] at hrecorded
  rw [body, Prog.monad_bind, Prog.bind_assoc]
  have hread : Meets (protocol order) t (fun percent w =>
      percent = (fed w₁.ghost.feeds).priceChangePct secondsAgo now ∧
        Asking t acc [] w₁.ghost.asked (3 * w₁.ghost.feeds.length) (fed w₁.ghost.feeds) w)
      (onOracle (priceChangePctBody secondsAgo now))
      (w₁.passed .computePrices (some t) w₁.ghost) := by
    refine (silent_priceChangePctBody secondsAgo now).meets_focus
      (fun oracle => Asking t acc [] w₁.ghost.asked (3 * w₁.ghost.feeds.length) oracle)
      (fun h => h.oracle) (fun h hrely _ => h.later hrely) (fun _ => rfl) hasking fun w₂ _ h₂ => ?_
    rw [priceChangePctBody_alone]
    exact ⟨rfl, h₂⟩
  refine hread.bind hallows.inv fun percent w₂ _ hmid => ?_
  obtain ⟨rfl, h₂⟩ := hmid
  have hfeeds : feedsOf (w₁.ghost.asked ++ [(t, Call.priceChangePct secondsAgo now,
      Reply.changed ((fed w₁.ghost.feeds).priceChangePct secondsAgo now))])
      = feedsOf w₁.ghost.asked := by
    rw [feedsOf, logged_append, List.filterMap_append]
    exact List.append_nil _
  intro w₃ hrely₃ hinv₃
  obtain ⟨hleft, hbetween⟩ := (h₂.later hrely₃).left hinv₃
    [(.priceChangePct secondsAgo now,
      .changed ((fed w₁.ghost.feeds).priceChangePct secondsAgo now))]
    rfl hrecorded hfeeds rfl rfl h.made rfl
  exact ⟨_, hleft, fun w₄ hrely₄ _ => hbetween.later hrely₄⟩

theorem meets_perform (h : Between t calls acc (c :: cs) w) :
    Meets (protocol order) t (fun a => Between t calls (acc ++ [a]) cs) (perform order c) w := by
  cases c with
  | feedPrice cpu ram now => exact meets_feed cpu ram now h
  | priceChangePct secondsAgo now => exact meets_change secondsAgo now h
  | _ => exact meets_trade rfl h

end

/-! ### Threads -/

section

variable {T : Type} [DecidableEq T]

omit [DecidableEq T] in
theorem inv_start (order : MapOrder) :
    Inv order (⟨fun _ => none, new, ⟨[], 0, []⟩⟩ : FuturesWorld T) where
  asked := recorded_nil
  traded := recorded_nil
  published := (published_all []).symm
  stored := show 0 = (0 + 2) / 3 from rfl
  sorted := ⟨List.Pairwise.nil, fun _ hmoment => nomatch hmoment⟩
  oracle _ := ⟨rfl, rfl⟩
  market _ := rfl

/-- The threads keep to the protocol. -/
theorem keeping_threads (order : MapOrder) (calls : T → List Call) :
    Keeping (protocol order) (fun t results => Between t (calls t) results [])
      (threads order calls) ⟨[], 0, []⟩ where
  inv := inv_start order
  meets t := by
    refine meets_session (J := fun acc cs => Between t (calls t) acc cs)
      (fun h hrely _ => h.later hrely) (fun _ h => meets_perform h) (inv_start order) ?_
    exact ⟨fun l howner => Option.some_ne_none t howner.symm, rfl, rfl, rfl, 0, le_rfl, .nil⟩

/-- The calls on the oracle and those on the market, in two orders that keep the order of
each thread.  The oracle's are those of a sequential run; so are the market's, where each
has seen of every price what was there at some moment.  Those moments follow each other,
over all threads, and in each thread also the feeds and readings of the oracle. -/
structure Serialized (order : MapOrder) (calls : T → List Call)
    (results : T → List (Call × Reply)) (system : FuturesSystem)
    (asked : List (T × Call × Reply)) (traded : List (T × (Call × Sighting) × Reply)) : Prop where
  made : ∀ t, (results t).map Prod.fst = calls t
  replied : ∀ t, asked.filterMap (Atomic.ofThread t)
      = ((results t).filter fun r => mutex r.1 = .computePrices) ∧
    (traded.filterMap (Atomic.ofThread t)).map (fun e => (e.1.1, e.2))
      = (results t).filter fun r => mutex r.1 = .futures
  askedRecorded : Recorded (step order) new asked
  tradedRecorded : Recorded (trade order (feedsOf asked)) .new traded
  oracle : system.oracle = fed (feedsOf asked)
  market : system.market = final (trade order (feedsOf asked)) .new (logged traded)
  sorted : Ascending (sightings traded) (3 * (feedsOf asked).length)
  inTurn : ∀ t, ∃ last, InTurn asked t (results t) (seenBy t traded) last

/-- Whatever the schedule, the threads run to their end, and have then been served in this
way. -/
theorem market_serializes [Finite T] (order : MapOrder) (calls : T → List Call) :
    Completes (threads order calls) ∧
      ∀ s results, Reachable (threads order calls) s → (∀ t, s.progs t = .done (results t)) →
        ∃ asked traded, Serialized order calls results s.data asked traded := by
  constructor
  · have hperform : ∀ c, Ordered (fun _ => 0) ∅ ∅ ∅ (perform order c) := by
      intro c
      rw [perform_eq]
      refine .inr ⟨fun l hl => absurd hl (Set.notMem_empty l), ?_⟩
      refine ((lockFree_body order c).changesOnce.ordered _ _ _).bind fun r =>
        ⟨Set.mem_insert _ ∅, Set.insert_sdiff_self_of_notMem (Set.notMem_empty _)⟩
    have hsound : Sound (fun _ => 0) ∅ (threads order calls) :=
      sound_start (fun t => ordered_session (fun c _ => hperform c) []) new
    exact (completes_iff_no_selfBlocked hsound).mpr fun _ _ _ l hl =>
      absurd hl (Set.notMem_empty l)
  · intro s results hreach hfin
    obtain ⟨ledger, hinv, hpost⟩ := post_of_finished (keeping_threads order calls) hreach hfin
    -- threads that have returned hold no mutex, so both halves of the invariant are there
    have hnone : ∀ l, s.owner l = none := fun l =>
      Option.eq_none_iff_forall_ne_some.mpr fun t => (hpost t).owner l
    obtain ⟨horacle, hmoment⟩ := hinv.oracle (hnone _)
    refine ⟨ledger.asked, ledger.traded, fun t => ?_,
      fun t => ⟨(hpost t).replied.asked, (hpost t).replied.traded⟩, hinv.asked, hinv.traded,
      horacle, hinv.market (hnone _), ?_, fun t => ?_⟩
    · rw [← (hpost t).made, List.append_nil]
    · have hsorted := hinv.sorted
      rw [hmoment] at hsorted
      exact hsorted
    · obtain ⟨last, -, hturn⟩ := (hpost t).replied.inTurn
      exact ⟨last, hturn⟩

end

/-! ### An opening during a feed -/

deriving instance DecidableEq for OpenCall, Call, Reply

/-- One thread opens a position and looks it up, the other feeds prices. -/
def fedOpening : Bool → List Call
  | true => [.openPosition (.forward "alice" 1 1 60 5 10), .getFuture "fwd_0"]
  | false => [.feedPrice 1 2 20]

/-- A core at the first price, memory and the index at the next. -/
def fedOpeningFuture : ComputeFuture where
  futureId := "fwd_0"
  traderAddress := "alice"
  type := .forwardContract
  status := .opened
  cpuCores := 1
  ramGb := 1
  entryPrice := 7 / 5
  targetPrice := 7 / 5
  leverage := 1
  collateralSol := 5
  notionalValue := 21 / 10
  openedAt := 10
  expiresAt := 70
  settledAt := 0
  pnl := 0

def fedOpeningResults : Bool → List (Call × Reply)
  | true => [(.openPosition (.forward "alice" 1 1 60 5 10), .opened ""),
      (.getFuture "fwd_0", .future (some fedOpeningFuture))]
  | false => [(.feedPrice 1 2 20, .fed)]

/-- The feed falls between the loads of two prices. -/
theorem finished_fedOpening :
    ∃ s, Reachable (threads newestFirst fedOpening) s ∧
      ∀ t, s.progs t = .done (fedOpeningResults t) := by
  have hrun : ∀ t, ((run (threads newestFirst fedOpening) [true, true, false, false, false, false,
      false, false, false, true, true, true, true, true, true, true, true]).bind fun s =>
        (s.progs t).returned) = some (fedOpeningResults t) := by
    decide +kernel
  exact finished_of_run hrun

theorem market_serializes_fedOpening :
    ∃ system asked traded,
      Serialized newestFirst fedOpening fedOpeningResults system asked traded := by
  obtain ⟨s, hreach, hfin⟩ := finished_fedOpening
  exact ⟨s.data, (market_serializes newestFirst fedOpening).2 s _ hreach hfin⟩

/-- No one order of the calls gives these replies. -/
theorem not_sequential_fedOpening {history : List (Bool × Call × Reply)}
    (hrecorded : Recorded (step newestFirst) new history) :
    ¬ ∀ t, history.filterMap (Atomic.ofThread t) = fedOpeningResults t := by
  intro hby
  have htrue := hby true
  have hfalse := hby false
  rcases history with
    _ | ⟨⟨_ | _, r₁⟩, _ | ⟨⟨_ | _, r₂⟩, _ | ⟨⟨_ | _, r₃⟩, _ | ⟨⟨_ | _, r₄⟩, _⟩⟩⟩⟩
    <;> simp [Atomic.ofThread, fedOpeningResults] at htrue hfalse
  -- the feed comes before the calls of the other thread, between them, or after them
  all_goals
    obtain ⟨⟨rfl, rfl⟩, rfl⟩ := And.intro htrue hfalse
    exact absurd hrecorded (by rw [Recorded]; decide +kernel)

end FuturesSystem

end Membra

import Mathlib

/-!
# Domain types

The types the router reads. Symbols, asset kinds and exchanges come from the `paft` crate. A symbol
is a validated string, and the router compares symbols and prints them. Asset kinds and exchanges
are only ever compared, so they are the type parameters `K` and `E`.
-/

namespace Borsa

/-- A ticker symbol. -/
structure Symbol where
  /-- `Symbol::as_str`. -/
  asStr : String
  deriving DecidableEq

/-- A security: its symbol and, when known, its exchange. -/
structure Security (E : Type) where
  symbol : Symbol
  exchange : Option E
  deriving DecidableEq

/-- How an instrument is identified. No function modelled here reads a prediction market's ids. -/
inductive IdentifierScheme (E : Type) where
  | security (sec : Security E)
  | prediction
  deriving DecidableEq

/-- An instrument. -/
structure Instrument (K E : Type) where
  id : IdentifierScheme E
  kind : K
  deriving DecidableEq

/-- A search request. -/
structure SearchRequest (K : Type) where
  query : String
  kind : Option K
  limit : Option ℕ
  lang : Option String
  region : Option String
  deriving DecidableEq

/-- The high-level capability labels. -/
inductive Capability where
  | quote | search
  | history | downloadHistory
  | profile | isin
  | earnings | incomeStatement | balanceSheet | cashflow | calendar
  | recommendations | recommendationsSummary | upgradesDowngrades | analystPriceTarget
  | majorHolders | institutionalHolders | mutualFundHolders
  | insiderTransactions | insiderRoster | netSharePurchaseActivity
  | esg | news
  | optionsExpirations | optionChain
  | streamQuotes | streamCandles | streamOptions
  deriving DecidableEq

/-- The identifier a capability is printed as, in logs and errors. -/
def Capability.asStr : Capability → String
  | .quote => "quote"
  | .search => "search"
  | .history => "history"
  | .downloadHistory => "download:history"
  | .profile => "profile"
  | .isin => "isin"
  | .earnings => "earnings"
  | .incomeStatement => "income-statement"
  | .balanceSheet => "balance-sheet"
  | .cashflow => "cashflow"
  | .calendar => "calendar"
  | .recommendations => "recommendations"
  | .recommendationsSummary => "recommendations-summary"
  | .upgradesDowngrades => "upgrades-downgrades"
  | .analystPriceTarget => "analyst-price-target"
  | .majorHolders => "major-holders"
  | .institutionalHolders => "institutional-holders"
  | .mutualFundHolders => "mutual-fund-holders"
  | .insiderTransactions => "insider-transactions"
  | .insiderRoster => "insider-roster"
  | .netSharePurchaseActivity => "net-share-purchase-activity"
  | .esg => "esg"
  | .news => "news"
  | .optionsExpirations => "options-expirations"
  | .optionChain => "option-chain"
  | .streamQuotes => "stream-quotes"
  | .streamCandles => "stream-candles"
  | .streamOptions => "stream-options"

/-- The three kinds of update a stream can carry. -/
inductive StreamKind where
  | quotes | options | candles
  deriving DecidableEq

/-- The key under which a policy names a connector. Keys are compared as strings. -/
structure ConnectorKey where
  asStr : String
  deriving DecidableEq

/-- What the router reads of a connector: its name, which is also its routing key, the asset kinds it
supports and the streams it implements. -/
structure Connector (K : Type) where
  name : String
  supportsKind : K → Bool
  asStreamProvider : Bool
  asOptionStreamProvider : Bool
  asCandleStreamProvider : Bool

/-- `BorsaConnector::key`. -/
def Connector.key {K : Type} (c : Connector K) : ConnectorKey := ⟨c.name⟩

/-- `StreamUpdateKind::can_stream`. -/
def Connector.canStream {K : Type} (c : Connector K) : StreamKind → Bool
  | .quotes => c.asStreamProvider
  | .options => c.asOptionStreamProvider
  | .candles => c.asCandleStreamProvider

/-- The capability under which a stream's errors are reported. -/
def StreamKind.capability : StreamKind → Capability
  | .quotes => .streamQuotes
  | .options => .streamOptions
  | .candles => .streamCandles

/-- The order in which a hash map or a hash set is iterated. -/
structure HashOrder where
  iter : ∀ {α : Type}, List α → List α
  perm : ∀ {α : Type} (entries : List α), (iter entries).Perm entries

/-- The order of insertion. -/
def HashOrder.insertion : HashOrder := ⟨fun entries => entries, fun _ => .rfl⟩

section
variable {K E : Type}

/-- `symbol_opt`: a security's symbol. -/
def symbolOpt (inst : Instrument K E) : Option Symbol :=
  match inst.id with
  | .security sec => some sec.symbol
  | .prediction => none

/-- The exchange a security names. -/
def exchangeOpt (inst : Instrument K E) : Option E :=
  match inst.id with
  | .security sec => sec.exchange
  | .prediction => none

/-- The symbols of a list of instruments, in order. -/
def symbolsOf (insts : List (Instrument K E)) : List Symbol := insts.filterMap symbolOpt

theorem mem_symbolsOf {insts : List (Instrument K E)} {sym : Symbol} :
    sym ∈ symbolsOf insts ↔ ∃ inst ∈ insts, symbolOpt inst = some sym := by
  simp [symbolsOf]

theorem symbolsOf_ne_nil {insts : List (Instrument K E)} (hne : insts ≠ [])
    (hsec : ∀ inst ∈ insts, (symbolOpt inst).isSome) : symbolsOf insts ≠ [] := by
  obtain ⟨inst, hinst⟩ := List.exists_mem_of_ne_nil insts hne
  obtain ⟨sym, hsym⟩ := Option.isSome_iff_exists.1 (hsec inst hinst)
  exact List.ne_nil_of_mem (mem_symbolsOf.2 ⟨inst, hinst, hsym⟩)

end

end Borsa

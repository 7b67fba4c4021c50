import XChainHub.Library.OrderedMap
import XChainHub.Lib.Bcmath
import XChainHub.Lib.CanonicalInt

/-!
The open offers the matcher reads: an indexer's order as reported, the offer a
hub tags it into (match.js loadOfferBook, findOpenOffer), its allow and block
lists (offer_lists.js) and the reservation ledger (ledger.js). An order flag is a
Boolean, an order's number a safe integer, and a field is none where absent or
null.
-/
namespace XChainHub.CrossChain.Dex
open CanonicalInt Bcmath

structure Order where
  actionIndex : SafeNat
  blockIndex : Option SafeNat
  kind : Option String
  giveCoin : String
  getCoin : String
  giveTick : Option String
  getTick : Option String
  giveAmount : Option String
  getAmount : Option String
  giveOwnership : Bool
  getOwnership : Bool
  giveDecimals : Option ℚ
  getAddress : Option String
  payoutLegs : Option String
  pushGeneration : ℕ
  allowList : Option Scalar
  blockList : Option Scalar

/- What fetchOpenOffers pages together from one indexer; the cursor is the action
   index, so an order is listed once. -/
structure OrdersReply where
  network : String
  latest : Option ℚ
  orders : List Order
  distinct : (orders.map (fun o => o.actionIndex)).Nodup

structure ListState where
  enforced : Bool
  valid : Bool
  allowAttached : Bool
  blockAttached : Bool
  allowMembers : List String
  blockMembers : List String

structure Offer extends Order where
  homeCoin : String
  homeNetwork : String
  homeBlock : Option ℚ
  lists : Option ListState

/- type and members of a getlistat answer; a member that is no string is other. -/
structure ListAnswer where
  failed : Bool
  listType : Scalar
  members : Option (List Scalar)

/- What a hub reads outside its own state. orders and getlistat are none where the call
   throws or the indexer has no url, listEnforcement where the registry throws. -/
structure Venue where
  orders : String → Option OrdersReply
  minConfirmations : String → ℕ
  getlistat : String → ℕ → ℕ → Option ListAnswer
  listEnforcement : String → ℚ → Option Bool
  priceCross : String → ℚ → Bool
  sha256 : String → String
  toLowerCase : String → String

def allowedChains : List String := ["BTC", "LTC", "DOGE"]

section Book
variable (venue : Venue)

def deepEnough (coin : String) (latest : Option ℚ) (o : Order) : Bool :=
  match latest, o.blockIndex with
  | some tip, some block => !(tip - block.val + 1 < venue.minConfirmations coin)
  | _, _ => true

def tagged (coin : String) (reply : OrdersReply) (o : Order) : Offer :=
  { o with
    homeCoin := coin, homeNetwork := reply.network, homeBlock := reply.latest, lists := none }

def loadOfferBook (coin : String) : List Offer :=
  match venue.orders coin with
  | none => []
  | some reply =>
    if reply.network = "" then []
    else (reply.orders.filter (deepEnough venue coin reply.latest)).map (tagged coin reply)

/- An index that is no number finds nothing. -/
def findOpenOffer (coin : String) (actionIndex : Option ℚ) : Option Offer :=
  match venue.orders coin with
  | none => none
  | some reply =>
    if reply.network = "" then none
    else
      match reply.orders.find? (fun o => some (o.actionIndex.val : ℚ) = actionIndex) with
      | none => none
      | some o => if deepEnough venue coin reply.latest o then some (tagged coin reply o) else none

end Book

section Lists
variable (venue : Venue)

inductive ListReference where
  | unreadable
  | unattached
  | attached (id : ℕ)

def listReference : Option Scalar → ListReference
  | none => .unreadable
  | some .null => .unattached
  | some (.number q) =>
    if q = 0 then .unattached
    else if isSafeInteger q && 0 < q then .attached q.num.toNat
    else .unreadable
  | some (.text s) =>
    if s = "0" then .unattached
    else if canonicalDigits s.toList && DecimalText.digitsValue s.toList ≤ maxSafeInteger then
      .attached (DecimalText.digitsValue s.toList)
    else .unreadable
  | some .other => .unreadable

def memberText : Scalar → Option String
  | .text s => if s = "" then none else some s
  | _ => none

/- validMembersAnswer, with the members it vouches for. -/
def validMembers (answer : ListAnswer) : Option (List String) :=
  if answer.failed || (answer.listType ≠ .number 0 && answer.listType ≠ .text "0") then none
  else answer.members.bind (fun members => members.mapM memberText)

def readMembers (o : Offer) (id : ℕ) : Option (List String) :=
  match o.homeBlock with
  | none => none
  | some block =>
    if o.homeCoin = "" || !isSafeInteger block || block < 0 then none
    else (venue.getlistat o.homeCoin id block.num.toNat).bind validMembers

/- Whether a list is attached, and its members where they could be read. -/
def resolveReference (o : Offer) : ListReference → Option (Bool × Option (List String))
  | .unreadable => none
  | .unattached => some (false, none)
  | .attached id => some (true, readMembers venue o id)

def unusableLists : ListState := ⟨true, false, false, false, [], []⟩

def prepareOne (o : Offer) : ListState :=
  match resolveReference venue o (listReference o.allowList),
    resolveReference venue o (listReference o.blockList) with
  | some (allowAttached, allow), some (blockAttached, block) =>
    ⟨true, (!allowAttached || allow.isSome) && (!blockAttached || block.isSome), allowAttached,
      blockAttached, allow.getD [], block.getD []⟩
  | _, _ => unusableLists

def listState (snapshotBlock : ℚ) (o : Offer) : ListState :=
  match venue.listEnforcement o.homeNetwork snapshotBlock with
  | none => unusableLists
  | some false => ⟨false, true, false, false, [], []⟩
  | some true => prepareOne venue o

def prepareOfferList (snapshotBlock : ℚ) (o : Offer) : Offer :=
  { o with lists := some (listState venue snapshotBlock o) }

/- A payout address has to be given, and not be empty, before a list can be read for it. -/
def oneSideAllows (o counterparty : Offer) : Bool :=
  match o.lists with
  | none => true
  | some state =>
    if !state.enforced then true
    else if !state.valid then false
    else if !state.allowAttached && !state.blockAttached then true
    else
      match counterparty.getAddress with
      | none => false
      | some payout =>
        payout ≠ "" && (!state.allowAttached || payout ∈ state.allowMembers) &&
          (!state.blockAttached || payout ∉ state.blockMembers)

/- An offer without a state is enforced neither way, which differs from both. -/
def offerPairAllowed (a b : Offer) : Bool :=
  match a.lists, b.lists with
  | none, none => true
  | some left, some right =>
    left.enforced = right.enforced && oneSideAllows a b && oneSideAllows b a
  | _, _ => false

end Lists

section Ledger

abbrev OfferKey := String × ℕ

structure Committed where
  give : String
  get : String

abbrev Ledger := OrderedMap OfferKey Committed

def offerKey (chain : String) (actionIndex : ℕ) : OfferKey := (chain, actionIndex)

def Offer.key (o : Offer) : OfferKey := offerKey o.homeCoin o.actionIndex.val

def Ledger.at (ledger : Ledger) (key : OfferKey) : Committed := (ledger.get key).getD ⟨"0", "0"⟩

def committedFor (ledger : Ledger) (o : Offer) : Committed := ledger.at o.key

structure Remaining where
  give : ℚ
  get : ℚ

/- A BigNumber is kept as its value; the source writes it with bcstr and reads it again. -/
def effectiveRemaining (ledger : Ledger) (o : Offer) : Remaining :=
  let c := committedFor ledger o
  let give := bcsub (bcnum (o.giveAmount.getD "0")) (bcnum c.give) 64
  let get := bcsub (bcnum (o.getAmount.getD "0")) (bcnum c.get) 64
  ⟨if give < 0 then 0 else give, if get < 0 then 0 else get⟩

/- The fields of a match row that the ledger reads of one side. -/
structure FillLeg where
  chain : String
  actionIndex : ℕ
  amount : String

def FillLeg.key (l : FillLeg) : OfferKey := offerKey l.chain l.actionIndex

def applyAmount (sign : ℤ) (current amount : String) : String :=
  bcstr (if sign < 0 then bcsub (bcnum current) (bcnum amount) 64
    else bcadd (bcnum current) (bcnum amount) 64)

def Committed.apply (c : Committed) (sign : ℤ) (give get : String) : Committed :=
  ⟨applyAmount sign c.give give, applyAmount sign c.get get⟩

/- Both entries are read before either is written; the two sides are on different chains. -/
def applyCommit (ledger : Ledger) (a b : FillLeg) (sign : ℤ) : Ledger :=
  (ledger.set a.key ((ledger.at a.key).apply sign a.amount b.amount)).set b.key
    ((ledger.at b.key).apply sign b.amount a.amount)

end Ledger

end XChainHub.CrossChain.Dex

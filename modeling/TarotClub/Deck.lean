import TarotClub.Card

namespace TarotClub

/-- Arithmetic of an unsigned byte. -/
def u8 (n : ℕ) : ℕ := n % 256

/-- The cards, in order, and the team that owns them. -/
structure Deck where
  mDeck : List Card := []
  mOwner : Team := .noTeam
  deriving DecidableEq, Repr

/-- `Deck::Statistics`; the card points are kept in half points, which a `float` holds
exactly. -/
structure Statistics where
  nbCards : ℕ := 0
  trumps : ℕ := 0
  oudlers : ℕ := 0
  majorTrumps : ℕ := 0
  kings : ℕ := 0
  queens : ℕ := 0
  knights : ℕ := 0
  jacks : ℕ := 0
  weddings : ℕ := 0
  longSuits : ℕ := 0
  cuts : ℕ := 0
  singletons : ℕ := 0
  sequences : ℕ := 0
  suits : List ℕ := [0, 0, 0, 0]
  littleTrump : Bool := false
  bigTrump : Bool := false
  fool : Bool := false
  points : ℤ := 0
  deriving DecidableEq, Repr

/-- What `CanPlayCard` finds out about the trick and the hand. -/
structure PlayStats where
  hasSuit : Bool := false
  hasTrump : Bool := false
  highestTrumpValue : ℕ := 0
  previousTrump : Bool := false
  maxPreviousTrump : ℕ := 0
  deriving DecidableEq, Repr

namespace Deck

def size (d : Deck) : ℕ := d.mDeck.length

def clear (d : Deck) : Deck := { d with mDeck := [] }

def appendCard (d : Deck) (c : Card) : Deck := { d with mDeck := d.mDeck ++ [c] }

def append (d : Deck) (deck : Deck) : Deck := { d with mDeck := d.mDeck ++ deck.mDeck }

def setOwner (d : Deck) (team : Team) : Deck := { d with mOwner := team }

/-- The 78 cards. -/
def createTarotDeck (d : Deck) : Deck :=
  { d with mDeck :=
      ((List.range 4).flatMap fun i => (List.range 14).map fun j => ⟨j + 1, i⟩) ++
        (List.range 22).map fun i => ⟨i, Card.trumps⟩ }

def count (d : Deck) (card : Card) : ℕ := d.mDeck.count card

def hasCard (d : Deck) (card : Card) : Bool := d.mDeck.any fun c => card = c

/-- Removes every copy of the card. -/
def remove (d : Deck) (card : Card) : Deck :=
  { d with mDeck := d.mDeck.filter fun c => c ≠ card }

/-- One card of the loop of `RemoveDuplicates`. -/
def removeDuplicatesStep (acc : ℕ × Deck) (c : Card) : ℕ × Deck :=
  if acc.2.hasCard c then (acc.1 + 1, acc.2.remove c) else acc

/-- Removes the cards of `deck`; also returns how many of them were found. -/
def removeDuplicates (d : Deck) (deck : Deck) : ℕ × Deck :=
  deck.mDeck.foldl removeDuplicatesStep (0, d)

def at' (d : Deck) (pos : ℕ) : Card := d.mDeck.getD pos {}

/-- `size` cards from a position on; positions and sizes that are too large are corrected. -/
def mid (d : Deck) (fromPos size : ℕ) : Deck :=
  let fromPos := if fromPos ≥ d.size then 0 else fromPos
  let size := if size > d.size then d.size - fromPos else size
  { mDeck := (d.mDeck.drop fromPos).take size }

def toString (d : Deck) : Str := join (d.mDeck.map Card.toString) (str ";")

/-- The last card of that name. -/
def getCard (d : Deck) (name : Str) : Card :=
  d.mDeck.foldl (fun card c => if c.toString = name then c else card) {}

def hasOneOfTrump (d : Deck) : Bool :=
  d.mDeck.any fun c => c.mSuit = Card.trumps && c.mValue = 1

def hasFool (d : Deck) : Bool :=
  d.mDeck.any fun c => c.mSuit = Card.trumps && c.mValue = 0

/-- The highest trump, the Fool left out. -/
def highestTrump (d : Deck) : Card :=
  (d.mDeck.foldl
    (fun (acc : Card × ℕ) c =>
      if c.mSuit = Card.trumps ∧ c.mValue > acc.2 then (c, c.mValue) else acc) ({}, 0)).1

/-- One card of the loop of `HighestSuit`: the best card so far, its value, and the
leading suit once there is one. -/
def highestSuitStep (acc : Card × ℕ × Option ℕ) (c : Card) : Card × ℕ × Option ℕ :=
  if c.mSuit ≠ Card.trumps ∧ c.mValue > acc.2.1 then
    match acc.2.2 with
    | none => (c, c.mValue, some c.mSuit)
    | some suit => if c.mSuit = suit then (c, c.mValue, some suit) else acc
  else acc

/-- The highest card of the suit that was led. -/
def highestSuit (d : Deck) : Card := (d.mDeck.foldl highestSuitStep ({}, 0, none)).1

/-- Whether the rules on trumps let the card be played. -/
def testPlayTrump (card : Card) (stats : PlayStats) : Bool :=
  if card.mSuit = Card.trumps then
    if stats.previousTrump then
      if card.mValue > stats.maxPreviousTrump then true
      else !(stats.highestTrumpValue > stats.maxPreviousTrump)
    else true
  else if stats.hasTrump then stats.highestTrumpValue = 0
  else true

def previousCards (stats : PlayStats) (trick : Deck) : PlayStats :=
  trick.mDeck.foldl
    (fun stats c =>
      if c.mSuit = Card.trumps then
        { stats with
          previousTrump := true
          maxPreviousTrump :=
            if c.mValue > stats.maxPreviousTrump then c.mValue else stats.maxPreviousTrump }
      else stats) stats

def handCards (stats : PlayStats) (hand : Deck) (suit : ℕ) : PlayStats :=
  hand.mDeck.foldl
    (fun stats c =>
      if c.mSuit = Card.trumps then
        { stats with
          hasTrump := true
          highestTrumpValue :=
            if c.mValue > stats.highestTrumpValue then c.mValue else stats.highestTrumpValue }
      else if c.mSuit = suit then { stats with hasSuit := true }
      else stats) stats

/-- Whether the owner of the hand `d` may play the card on the trick. -/
def canPlayCard (d : Deck) (card : Card) (trick : Deck) : Bool :=
  if !d.hasCard card then false
  else if trick.size = 0 then true
  else if card.isFool then true
  else if (trick.at' 0).isFool ∧ trick.size = 1 then true
  else
    -- the requested suit is the first card's, or the second one's behind the Fool
    let suit := if (trick.at' 0).isFool then (trick.at' 1).mSuit else (trick.at' 0).mSuit
    let stats := handCards (previousCards {} trick) d suit
    if suit = Card.trumps then testPlayTrump card stats
    else if card.mSuit = suit then true
    else if stats.hasSuit then false
    else testPlayTrump card stats

def analyzeTrumpsStep (stats : Statistics) (c : Card) : Statistics :=
  let stats :=
    if c.mSuit = Card.trumps then
      { stats with
        trumps := u8 (stats.trumps + 1)
        majorTrumps := if c.mValue ≥ 15 then u8 (stats.majorTrumps + 1) else stats.majorTrumps
        bigTrump := stats.bigTrump || c.mValue = 21
        littleTrump := stats.littleTrump || c.mValue = 1
        fool := stats.fool || c.mValue = 0
        oudlers :=
          if c.mValue = 21 ∨ c.mValue = 1 ∨ c.mValue = 0 then u8 (stats.oudlers + 1)
          else stats.oudlers }
    else stats
  { stats with points := stats.points + c.getPoints }

def analyzeTrumps (d : Deck) (stats : Statistics) : Statistics :=
  d.mDeck.foldl analyzeTrumpsStep { stats with nbCards := u8 d.size }

/-- The sequence detection of `AnalyzeSuits` over the fourteen values of a suit: length
of the run, whether it has been counted, number of sequences. -/
def sequenceStep (distr : ℕ → Bool) (acc : ℕ × Bool × ℕ) (k : ℕ) : ℕ × Bool × ℕ :=
  if distr k then
    if !acc.2.1 && acc.1 + 1 ≥ 5 then (acc.1 + 1, true, u8 (acc.2.2 + 1))
    else (acc.1 + 1, acc.2.1, acc.2.2)
  else (0, false, acc.2.2)

def analyzeSuit (d : Deck) (stats : Statistics) (suit : ℕ) : Statistics :=
  let cards := d.mDeck.filter fun c => c.mSuit = suit
  let distr (k : ℕ) : Bool := cards.any fun c => c.mValue = k + 1
  let number (value : ℕ) : ℕ := cards.countP fun c => c.mValue = value
  let count := u8 cards.length
  { stats with
    jacks := u8 (stats.jacks + number 11)
    knights := u8 (stats.knights + number 12)
    queens := u8 (stats.queens + number 13)
    kings := u8 (stats.kings + number 14)
    suits := stats.suits.set suit count
    longSuits := if count ≥ 5 then u8 (stats.longSuits + 1) else stats.longSuits
    singletons := if count = 1 then u8 (stats.singletons + 1) else stats.singletons
    cuts := if count = 0 then u8 (stats.cuts + 1) else stats.cuts
    weddings := if distr 13 && distr 12 then u8 (stats.weddings + 1) else stats.weddings
    sequences := ((List.range 14).foldl (sequenceStep distr) (0, false, stats.sequences)).2.2 }

def analyzeSuits (d : Deck) (stats : Statistics) : Statistics :=
  (List.range 4).foldl (analyzeSuit d) stats

/-- Whether the owner of the hand `d` may show this handle. -/
def testHandle (d : Deck) (handle : Deck) : Bool :=
  getHandleType handle.size ≠ .noHandle &&
    handle.size = (handle.analyzeTrumps {}).trumps &&
    handle.mDeck.all d.hasCard &&
    !(handle.hasFool && (d.analyzeTrumps {}).trumps > handle.size)

/-- Whether the owner of the hand `d` may put these cards aside. -/
def testDiscard (d : Deck) (discard dog : Deck) (numberOfPlayers : ℕ) : Bool :=
  if discard.size = numberOfDogCards numberOfPlayers then
    discard.mDeck.all fun c =>
      (d.hasCard c || dog.hasCard c) &&
        !(c.mSuit = Card.trumps || (c.mSuit ≠ Card.trumps && c.mValue = 14)) &&
        discard.count c = 1
  else false

/-- The valid cards among the names between the semicolons; also returns the number of
names. -/
def setCards (d : Deck) (cards : Str) : ℕ × Deck :=
  let names := split cards (str ";")
  (u8 names.length,
    { d with mDeck := (names.map Card.ofString).filter Card.isValid })

def ofString (cards : Str) : Deck := (({} : Deck).setCards cards).2

end Deck

end TarotClub

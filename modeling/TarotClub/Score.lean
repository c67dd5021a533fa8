import TarotClub.Common
import TarotClub.Rounding

namespace TarotClub

/-- Arithmetic of a signed 32-bit integer. -/
def i32 (n : ℤ) : ℤ := n.bmod (2 ^ 32)

/-- The points of one deal; the card points before adjustment are kept in half points. -/
structure Points where
  pointsAttack : ℤ := 0
  cardsPointsAttack : ℤ := 0
  oudlers : ℤ := 0
  handlePoints : ℤ := 0
  slamDone : Bool := false
  littleEndianOwner : Team := .noTeam
  deriving DecidableEq, Repr

namespace Points

/-- The card points before adjustment are left as they are. -/
def clear (p : Points) : Points :=
  { p with
    pointsAttack := 0
    oudlers := 0
    handlePoints := 0
    slamDone := false
    littleEndianOwner := .noTeam }

def winner (p : Points) : Team :=
  if p.pointsAttack ≥ pointsToDo (p.oudlers % 256).toNat then .attack else .defense

def difference (p : Points) : ℤ := p.pointsAttack - pointsToDo (p.oudlers % 256).toNat

def getSlamPoints (p : Points) (bid : Bid) : ℤ :=
  if p.slamDone then
    if p.winner = .attack then if bid.slam then 400 else 200 else 200
  else if bid.slam then if p.winner = .attack then -200 else 200
  else 0

def getLittleEndianPoints (p : Points) : ℤ :=
  match p.littleEndianOwner with
  | .attack => if p.winner = .attack then 10 else -10
  | .defense => if p.winner = .attack then -10 else 10
  | .noTeam => 0

/-- The product with the unsigned multiplier and the sums behind it are taken modulo
`2 ^ 32`. -/
def getPoints (p : Points) (team : Team) (bid : Bid) (nbPlayers : ℕ) : ℤ :=
  let score := i32 ((25 + |p.difference| + p.getLittleEndianPoints) * getMultiplier bid.contract +
    p.handlePoints + p.getSlamPoints bid)
  if team = .attack then
    let sign : ℤ := if p.winner = .defense then -1 else 1
    let multiplier : ℤ := (nbPlayers : ℤ) - 1 - if bid.hasPartner then 1 else 0
    i32 (score * sign * multiplier)
  else
    let sign : ℤ := if p.winner = .attack then -1 else 1
    i32 (score * sign)

end Points

/-- `Score::Entry`. -/
structure ScoreEntry where
  points : Points
  bid : Bid
  nbPlayers : ℕ
  deriving DecidableEq, Repr

/-- The score of a game: one row of five entries for each deal. -/
structure Score where
  dealCounter : ℕ := 0
  scores : ℕ → ℕ → ℤ := fun _ _ => 0
  mNumberOfTurns : ℕ := 5
  mHistory : List ScoreEntry := []

namespace Score

/-- `numberOfTurns` arrives as an unsigned byte. -/
def newGame (numberOfTurns : ℕ) : Score := { mNumberOfTurns := numberOfTurns % 256 }

def getCurrentCounter (s : Score) : ℕ := s.dealCounter % 256

/-- Two thirds of the attack's points, in single precision up to the addition of `0.4`,
which is done in double precision. -/
def twoThirds (attackPoints : ℤ) : ℤ :=
  let float := Rounding.roundTo 24 (-149)
  let double := Rounding.roundTo 53 (-1074)
  let deuxTiers := float (float (float attackPoints * 2) / 3)
  Rounding.truncate (float (double (deuxTiers + double (2 / 5))))

/-- The row `AddPoints` writes. -/
def dealScores (points : Points) (bid : Bid) (numberOfPlayers : ℕ) (i : ℕ) : ℤ :=
  let attackPoints := points.getPoints .attack bid numberOfPlayers
  let defensePoints := points.getPoints .defense bid numberOfPlayers
  let shared := numberOfPlayers = 5 ∧ bid.hasPartner
  let takerPoints := if shared then twoThirds attackPoints else attackPoints
  let partnerPoints := if shared then i32 (attackPoints - takerPoints) else 0
  if Place.assign i = bid.taker then takerPoints
  else if numberOfPlayers = 5 ∧ Place.assign i = bid.partner ∧ bid.hasPartner then partnerPoints
  else defensePoints

/-- Adds a deal; the Boolean tells whether the game goes on. -/
def addPoints (s : Score) (points : Points) (bid : Bid) (numberOfPlayers : ℕ) : Bool × Score :=
  let row := s.scores s.dealCounter
  let row' : ℕ → ℤ := fun i =>
    if i < numberOfPlayers then dealScores points bid numberOfPlayers i else row i
  let s' : Score :=
    { s with
      mHistory := s.mHistory ++ [⟨points, bid, numberOfPlayers⟩]
      scores := fun deal => if deal = s.dealCounter then row' else s.scores deal
      dealCounter := (s.dealCounter + 1) % 2 ^ 32 }
  (s'.dealCounter < s'.mNumberOfTurns, s')

/-- One seat of the loop of `GetPodium`: the map holds one seat for each number of
points. -/
def podiumInsert (podium : List (ℤ × Place)) (points : ℤ) (p : Place) : List (ℤ × Place) :=
  match podium with
  | [] => [(points, p)]
  | (k, q) :: rest =>
    if points = k then (k, p) :: rest
    else if points < k then (points, p) :: (k, q) :: rest
    else (k, q) :: podiumInsert rest points p

/-- The seats by their points in the last deal, in increasing order. -/
def getPodium (s : Score) : List (ℤ × Place) :=
  if s.dealCounter > 0 then
    (List.range 5).foldl
      (fun podium i => podiumInsert podium (s.scores (s.dealCounter - 1) i) (Place.assign i)) []
  else []

/-- The last seat of the podium. -/
def getWinner (s : Score) : Place := ((s.getPodium).getLast?.map Prod.snd).getD .nowhere

end Score

end TarotClub

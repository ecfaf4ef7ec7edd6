import RadioOccupancy.Number

/-!
What a radio sends and receives, as far as its observers are told about it.
-/

namespace RadioOccupancy

/-- A packet of a frame. -/
structure Packet where
  uid : Number
  size : Number
deriving DecidableEq, Repr

/-- The packets that one station gets in a frame; an aggregate may hold several. -/
structure Psdu where
  packets : List Packet
  isAggregate : Bool
deriving DecidableEq, Repr

/-- The training sequence in front of a frame. -/
inductive Preamble where
  | long
  | short
  | htMixed
  | vhtSingleUser
  | vhtMultiUser
  | heSingleUser
  | heMultiUser
deriving DecidableEq, Repr

namespace Preamble

/-- All preambles, in the order in which they are listed. -/
def all : List Preamble :=
  [.long, .short, .htMixed, .vhtSingleUser, .vhtMultiUser, .heSingleUser, .heMultiUser]

/-- The name of a preamble in events and answers. -/
def name : Preamble → String
  | .long => "LONG"
  | .short => "SHORT"
  | .htMixed => "HT_MF"
  | .vhtSingleUser => "VHT_SU"
  | .vhtMultiUser => "VHT_MU"
  | .heSingleUser => "HE_SU"
  | .heMultiUser => "HE_MU"

end Preamble

/-- How a frame is sent. -/
structure TxVector where
  mode : String
  preamble : Preamble
  powerLevel : Number
  channelWidth : Number
deriving DecidableEq, Repr

/-- How well a frame was received. -/
structure SignalInfo where
  snr : Number
  rssi : Number
deriving DecidableEq, Repr

/-- A frame on the air: what each station gets in it, in sending order. -/
structure Ppdu where
  parts : List (Number × Psdu)
deriving DecidableEq, Repr

namespace Ppdu

/-- Gives a station its part: one that has a part keeps its place in the order. -/
def insert (station : Number) (psdu : Psdu) : List (Number × Psdu) → List (Number × Psdu)
  | [] => [(station, psdu)]
  | (s, p) :: rest =>
    if s.same station then (s, psdu) :: rest else (s, p) :: insert station psdu rest

/-- The parts of a frame from a list in which a station may be named more than once. -/
def ofList (parts : List (Number × Psdu)) : Ppdu :=
  ⟨parts.foldl (fun sofar part => insert part.1 part.2 sofar) []⟩

/-- All the packets of a frame in sending order. -/
def packets (p : Ppdu) : List Packet :=
  p.parts.flatMap fun part => part.2.packets

end Ppdu

end RadioOccupancy

import EntityTable.Text

/-!
The weapon subtypes known to the simulation.
-/

namespace EntityTable

inductive WeaponSubtype
  | torpedo
  | rocket
  | rocketTorpedo
  | missile
  | sam
  | shell
  | depthCharge
  | mine
  deriving DecidableEq

namespace WeaponSubtype

def name : WeaponSubtype → Text
  | .torpedo => "torpedo"
  | .rocket => "rocket"
  | .rocketTorpedo => "rocketTorpedo"
  | .missile => "missile"
  | .sam => "sam"
  | .shell => "shell"
  | .depthCharge => "depthCharge"
  | .mine => "mine"

def all : List WeaponSubtype :=
  [.torpedo, .rocket, .rocketTorpedo, .missile, .sam, .shell, .depthCharge, .mine]

def ofName? (name : Text) : Option WeaponSubtype := all.find? fun subtype => subtype.name = name

end WeaponSubtype
end EntityTable

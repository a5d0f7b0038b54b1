namespace SessionVault

inductive Topology where
  | standalone
  | sentinel
  | cluster
  deriving DecidableEq

def Topology.name : Topology → String
  | .standalone => "standalone"
  | .sentinel => "sentinel"
  | .cluster => "cluster"

def Topology.all : List Topology := [.standalone, .sentinel, .cluster]

def Topology.ofName? (name : String) : Option Topology := all.find? fun t => t.name == name

end SessionVault

import Mathlib.Logic.Basic
/-!
# Enumerations shared by the subsystems
-/

namespace TibiaServer

/-- `ReturnValue` of `enums.h`, in its order and without the common
`RETURNVALUE_`. -/
inductive ReturnValue
  | NOERROR
  | NOTPOSSIBLE
  | NOTENOUGHROOM
  | PLAYERISPZLOCKED
  | PLAYERISNOTINVITED
  | CANNOTTHROW
  | THEREISNOWAY
  | DESTINATIONOUTOFREACH
  | CREATUREBLOCK
  | NOTMOVEABLE
  | DROPTWOHANDEDITEM
  | BOTHHANDSNEEDTOBEFREE
  | CANONLYUSEONEWEAPON
  | NEEDEXCHANGE
  | CANNOTBEDRESSED
  | PUTTHISOBJECTINYOURHAND
  | PUTTHISOBJECTINBOTHHANDS
  | TOOFARAWAY
  | FIRSTGODOWNSTAIRS
  | FIRSTGOUPSTAIRS
  | CONTAINERNOTENOUGHROOM
  | NOTENOUGHCAPACITY
  | CANNOTPICKUP
  | THISISIMPOSSIBLE
  | DEPOTISFULL
  | CREATUREDOESNOTEXIST
  | CANNOTUSETHISOBJECT
  | PLAYERWITHTHISNAMEISNOTONLINE
  | NOTREQUIREDLEVELTOUSERUNE
  | YOUAREALREADYTRADING
  | THISPLAYERISALREADYTRADING
  | YOUMAYNOTLOGOUTDURINGAFIGHT
  | DIRECTPLAYERSHOOT
  | NOTENOUGHLEVEL
  | NOTENOUGHMAGICLEVEL
  | NOTENOUGHMANA
  | NOTENOUGHSOUL
  | YOUAREEXHAUSTED
  | PLAYERISNOTREACHABLE
  | CANONLYUSETHISRUNEONCREATURES
  | ACTIONNOTPERMITTEDINPROTECTIONZONE
  | YOUMAYNOTATTACKTHISPLAYER
  | YOUMAYNOTATTACKAPERSONINPROTECTIONZONE
  | YOUMAYNOTATTACKAPERSONWHILEINPROTECTIONZONE
  | YOUMAYNOTATTACKTHISCREATURE
  | YOUCANONLYUSEITONCREATURES
  | CREATUREISNOTREACHABLE
  | TURNSECUREMODETOATTACKUNMARKEDPLAYERS
  | YOUNEEDPREMIUMACCOUNT
  | YOUNEEDTOLEARNTHISSPELL
  | YOURVOCATIONCANNOTUSETHISSPELL
  | YOUNEEDAWEAPONTOUSETHISSPELL
  | PLAYERISPZLOCKEDLEAVEPVPZONE
  | PLAYERISPZLOCKEDENTERPVPZONE
  | ACTIONNOTPERMITTEDINANOPVPZONE
  | YOUCANNOTLOGOUTHERE
  | YOUNEEDAMAGICITEMTOCASTSPELL
  | CANNOTCONJUREITEMHERE
  | YOUNEEDTOSPLITYOURSPEARS
  | NAMEISTOOAMBIGUOUS
  | CANONLYUSEONESHIELD
  | NOPARTYMEMBERSINRANGE
  | YOUARENOTTHEOWNER
  | NOSUCHRAIDEXISTS
  | ANOTHERRAIDISALREADYEXECUTING
  | TRADEPLAYERFARAWAY
  | YOUDONTOWNTHISHOUSE
  | TRADEPLAYERALREADYOWNSAHOUSE
  | TRADEPLAYERHIGHESTBIDDER
  | YOUCANNOTTRADETHISHOUSE
  | NOTENOUGHFISTLEVEL
  | NOTENOUGHCLUBLEVEL
  | NOTENOUGHSWORDLEVEL
  | NOTENOUGHAXELEVEL
  | NOTENOUGHDISTANCELEVEL
  | NOTENOUGHSHIELDLEVEL
  | NOTENOUGHFISHLEVEL
  | REWARDCHESTISEMPTY
  deriving DecidableEq, Repr

end TibiaServer

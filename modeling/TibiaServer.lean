import TibiaServer.Conditions.DamageList
import TibiaServer.Conditions.Presence
import TibiaServer.Events.RegisterRanges
import TibiaServer.Game.AddMoney
import TibiaServer.Game.CombatHealth
import TibiaServer.Game.ContainerRoom
import TibiaServer.Game.DecayTime
import TibiaServer.Game.HouseGoods
import TibiaServer.Game.LookInTrade
import TibiaServer.Game.Premium
import TibiaServer.Game.RemoveOfType
import TibiaServer.Game.SaleList
import TibiaServer.Game.TradeOffers
import TibiaServer.IOLoginData.Outfits
import TibiaServer.IOLoginData.RewardsInbox
import TibiaServer.IOMapSerialize.ItemRoundTrip
import TibiaServer.Loader.ParseTree
import TibiaServer.Login.Admission
import TibiaServer.Login.Ban
import TibiaServer.Login.Sessions
import TibiaServer.Login.TransformToSHA1
import TibiaServer.Output.Adler
import TibiaServer.Output.ReceivedPackets
import TibiaServer.Output.SendQueue
import TibiaServer.Output.Stream
import TibiaServer.Players.ChatMembers
import TibiaServer.Players.DeathLoss
import TibiaServer.Players.EquipRuns
import TibiaServer.Players.Experience
import TibiaServer.Players.GuildMembers
import TibiaServer.Players.PartyCompany
import TibiaServer.Players.Vocation
import TibiaServer.Players.WildcardTree
import TibiaServer.Protocol.ContainerWindow
import TibiaServer.Protocol.LiveCast
import TibiaServer.Protocol.MoveCreature
import TibiaServer.Protocol.SpawnDescription
import TibiaServer.Tasks.Deliveries
import TibiaServer.Tasks.ThinkEvents
import TibiaServer.Tiles.Exchanges
import TibiaServer.Tiles.ThingIndex
import TibiaServer.World.CardinalPaths
import TibiaServer.World.CombatAreas
import TibiaServer.World.CreatureTurns
import TibiaServer.World.ExperienceShares
import TibiaServer.World.MonsterRuns
import TibiaServer.World.MonsterSteps
import TibiaServer.World.Raids
import TibiaServer.World.SpawnChecks
import TibiaServer.World.SpawnPlaces
import TibiaServer.World.SummonLinks
import TibiaServer.World.Teleports
import TibiaServer.World.TileStore

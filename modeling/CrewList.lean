import CrewList.Core.Wire
import CrewList.Store.Validator
import CrewList.Store.SchemaVersion
import CrewList.Store.Title
import CrewList.Store.Hierarchy
import CrewList.Server.Boot
import CrewList.Server.Signals
import CrewList.Server.Repo
import CrewList.Server.Http
import CrewList.Server.Router
import CrewList.Server.Queries
import CrewList.Server.Create
import CrewList.Server.Delivery
import CrewList.Server.ReadBack
import CrewList.Server.Config
import CrewList.Server.Network
import CrewList.Server.Handlers
import CrewList.Core.Additions
import CrewList.Server.Respelled
import CrewList.Server.Testkit
import CrewList.Server.Cluster

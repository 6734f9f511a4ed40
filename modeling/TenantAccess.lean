import TenantAccess.Table.Lemmas
import TenantAccess.Store.Database
import TenantAccess.Store.Medium
import TenantAccess.Store.Schema
import TenantAccess.Json.Records
import TenantAccess.Call
import TenantAccess.Batch
import TenantAccess.Scenario.LevelGrid
import TenantAccess.Scenario.GrantCase
import TenantAccess.Proofs.Custody
import TenantAccess.Proofs.Isolation
import TenantAccess.Proofs.Coalition
import TenantAccess.Proofs.Backends
import TenantAccess.Proofs.Outsiders
import TenantAccess.Proofs.Administrators
import TenantAccess.Proofs.Losses
import TenantAccess.Proofs.Concealment
import TenantAccess.Proofs.Reading
import TenantAccess.Proofs.RoleNames
import TenantAccess.Proofs.Commuting
import TenantAccess.Proofs.Expulsion
import TenantAccess.Proofs.LastSwitch
import TenantAccess.Proofs.Store.Intact
import TenantAccess.Proofs.Vacancies
import TenantAccess.Proofs.LastOwner
import TenantAccess.Proofs.Store.RoleWrites
import TenantAccess.Proofs.GlobalReads
import TenantAccess.Proofs.CreateGate
import TenantAccess.Proofs.RoleOrder
import TenantAccess.Proofs.RoleCalls
import TenantAccess.Proofs.CarriedOut
import TenantAccess.Proofs.Replanning
import TenantAccess.Proofs.OwnerSet
import TenantAccess.Proofs.Store.Schema
import TenantAccess.Proofs.Hex
import TenantAccess.Proofs.Store.MemberScan
import TenantAccess.Proofs.Horizon
import TenantAccess.Proofs.GrantCases
import TenantAccess.Proofs.TenancyIsolation

import Magnetite.Proxy.Balance
import Magnetite.Krb5.Revocation
import Magnetite.Krb5.Impersonation
import Magnetite.Addc.CreateUser
import Magnetite.Addc.PasswordLife
import Magnetite.Addc.PasswordChange
import Magnetite.Center.Exclusion
import Magnetite.Center.FailoverRuns
import Magnetite.Repl.Passwords
import Magnetite.Repl.GroupEdits
import Magnetite.Repl.Deletions
import Magnetite.Dns.UpdateMeaning
import Magnetite.Dns.Cname
import Magnetite.Dhcp.Configuration
import Magnetite.Sysvol.Replication
import Magnetite.Mail.Quota
import Magnetite.Rpc.Drsuapi
import Magnetite.Krb5.Keytab
import Magnetite.Smb.RoundTrip
import Magnetite.Smb.Handles
import Magnetite.Smb.Nonces
import Magnetite.Ldap.DirSync
import Magnetite.Ldap.Accounts
import Magnetite.Ldap.SecurityLayer
import Magnetite.Proxy.Families
import Magnetite.Proxy.Headers
import Magnetite.Ldap.BerDepth
import Magnetite.Sso.Rotation
import Magnetite.Sso.Revocation
import Magnetite.Notify.Dispatch
import Magnetite.Portal.LastAdmin
import Magnetite.Portal.Sessions
import Magnetite.Dns.GssTsig
import Magnetite.Dns.ZoneKeys
import Magnetite.Ldap.Substrings
import Magnetite.Addc.Topology
import Magnetite.Dns.Chains
import Magnetite.Dns.Cache
import Magnetite.Rpc.SecretWrap
import Magnetite.Dhcp.Fresh
import Magnetite.Dns.Serials
import Magnetite.Ldap.Modify
import Magnetite.Ldap.Scope

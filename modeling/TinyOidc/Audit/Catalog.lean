import TinyOidc.Lib.JsonValues

/-! The audit event catalog (`src/audit/catalog.ts`): every type and the keys its `data` may
carry. -/
namespace TinyOidc.Audit
open JsonValues

/-- What the Admin API adds to every mutation. -/
def admin : List String := ["target", "diff"]

def auditCatalog : List (String × List String) :=
  [("user.created", admin ++ ["via", "invitation", "identities", "import_line"]),
   ("user.updated", admin ++ ["fields", "bookmark_time"]),
   ("user.disabled", admin ++ ["sessions_revoked", "import_line"]),
   ("user.enabled", admin ++ ["sessions_revoked"]),
   ("user.deleted", admin ++ ["sessions_revoked", "via"]),
   ("user.reindexed", admin ++ ["passkeys", "identities", "groups", "unknown_groups"]),
   ("user.exported", admin ++ ["passkeys", "identities", "sessions", "refresh_families",
      "grants"]),
   ("user.group_added", admin ++ ["group"]),
   ("user.group_removed", admin ++ ["group"]),
   ("group.created", admin),
   ("group.updated", admin ++ ["propagation"]),
   ("group.deleted", admin ++ ["propagation"]),
   ("passkey.registered", admin ++ ["passkey_id", "via"]),
   ("passkey.renamed", admin ++ ["passkey_id"]),
   ("passkey.deleted", admin ++ ["passkey_id"]),
   ("passkey.auth_succeeded", ["passkey_id"]),
   ("passkey.auth_failed", ["step"]),
   ("passkey.clone_suspected", ["passkey_id", "stored", "observed"]),
   ("identity.linked", admin ++ ["issuer", "via"]),
   ("identity.unlinked", admin ++ ["issuer", "identity_id"]),
   ("identity.login_succeeded", []),
   ("identity.login_failed", []),
   ("invitation.created", admin ++ ["kind", "groups", "expires_at", "import_line"]),
   ("invitation.used", ["kind", "via"]),
   ("invitation.revoked", admin ++ ["kind", "used"]),
   ("interaction.created", ["kind", "status"]),
   ("interaction.failed", ["kind", "error"]),
   ("interaction.completed", ["kind"]),
   ("authz.code_issued", ["scopes", "session_hit"]),
   ("authz.denied", ["error"]),
   ("consent.granted", ["scopes"]),
   ("consent.denied", []),
   ("consent.revoked", admin ++ ["grant_client_id"]),
   ("token.issued", ["grant_type", "scopes", "kind"]),
   ("token.refreshed", ["scopes", "kind"]),
   ("token.refresh_reuse", ["revoked_session_clients"]),
   ("token.code_replay", []),
   ("token.client_auth_failed", ["method"]),
   ("token.revoked", admin ++ ["family", "families", "hint"]),
   ("token.revoke_foreign", ["hint"]),
   ("session.created", ["amr", "acr", "upstream"]),
   ("session.rotated", ["amr", "acr", "upstream"]),
   ("session.revoked", admin ++ ["clients"]),
   ("session.expired", []),
   ("logout.rp_initiated", ["registered_redirect"]),
   ("logout.confirmed", []),
   ("logout.backchannel_sent", ["jti"]),
   ("logout.backchannel_failed", ["jti", "attempts"]),
   ("client.created", admin),
   ("client.updated", admin ++ ["secret_issued"]),
   ("client.secret_rotated", admin),
   ("client.disabled", admin),
   ("client.enabled", admin),
   ("client.deleted", admin),
   ("upstream.created", admin),
   ("upstream.updated", admin ++ ["secret_replaced", "jwk_replaced"]),
   ("upstream.deleted", admin),
   ("upstream.discovery_failed", admin ++ ["issuer", "step"]),
   ("key.created", admin ++ ["activates_at", "immediate", "via"]),
   ("key.retired", admin ++ ["emergency", "via"]),
   ("key.deleted", ["kid", "via"]),
   ("masterkey.rekeyed", admin ++ ["signing_keys", "upstreams", "unrecoverable"]),
   ("settings.updated", admin ++ ["keys"]),
   ("admin.bootstrap", ["client_id"]),
   ("admin.import_batch", admin ++ ["lines", "created", "unchanged", "conflict", "error"]),
   ("ratelimit.exceeded", ["class"]),
   ("system.cron_run", ["audit_rows_purged", "audit_hot_rows", "invitations_deleted",
      "users_repaired", "users_dropped", "users_deleted", "keys", "rekeyed", "skipped",
      "duration_ms"]),
   ("system.repair", admin ++ ["processed", "failed", "more"])]

def isAuditType (type : String) : Bool := auditCatalog.any (·.1 == type)

/-- Keys `data` may carry for a type; none for an unknown type. -/
def allowedDataKeys (type : String) : List Text :=
  ((auditCatalog.lookup type).getD []).map ascii

end TinyOidc.Audit

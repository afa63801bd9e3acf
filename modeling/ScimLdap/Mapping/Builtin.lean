import ScimLdap.Mapping.Registry

/-!
# The built-in tables

The attributes that every installation has, entity by entity.
-/

namespace ScimLdap.Mapping

def userEntries : List (String × Mapping) :=
  [("id", ⟨"inum", .string⟩),
   ("externalId", ⟨"oxTrustExternalId", .string⟩),
   ("userName", ⟨"uid", .string⟩),
   ("name.formatted", ⟨"cn", .string⟩),
   ("name.givenName", ⟨"givenName", .string⟩),
   ("name.familyName", ⟨"sn", .string⟩),
   ("name.middleName", ⟨"middleName", .string⟩),
   ("name.honorificPrefix", ⟨"oxTrustHonorificPrefix", .string⟩),
   ("name.honorificSuffix", ⟨"oxTrustHonorificSuffix", .string⟩),
   ("displayName", ⟨"displayName", .string⟩),
   ("nickName", ⟨"nickname", .string⟩),
   ("profileUrl", ⟨"oxTrustProfileURL", .string⟩),
   ("title", ⟨"oxTrustTitle", .string⟩),
   ("userType", ⟨"oxTrustUserType", .string⟩),
   ("preferredLanguage", ⟨"preferredLanguage", .string⟩),
   ("locale", ⟨"locale", .string⟩),
   ("timezone", ⟨"zoneinfo", .string⟩),
   ("active", ⟨"gluuStatus", .boolean "active" "inactive"⟩),
   ("emails.value", ⟨"mail", .string⟩),
   ("phoneNumbers.value", ⟨"telephoneNumber", .string⟩),
   ("groups.value", ⟨"memberOf", .string⟩),
   ("meta.created", ⟨"oxCreationTimestamp", .string⟩),
   ("meta.lastModified", ⟨"oxTrustMetaLastModified", .string⟩),
   ("meta.location", ⟨"oxTrustMetaLocation", .string⟩)]

def groupEntries : List (String × Mapping) :=
  [("id", ⟨"inum", .string⟩),
   ("displayName", ⟨"displayName", .string⟩),
   ("members.value", ⟨"member", .string⟩),
   ("meta.lastModified", ⟨"oxTrustMetaLastModified", .string⟩),
   ("meta.location", ⟨"oxTrustMetaLocation", .string⟩)]

def fidoDeviceEntries : List (String × Mapping) :=
  [("id", ⟨"oxId", .string⟩),
   ("userId", ⟨"personInum", .string⟩),
   ("displayName", ⟨"displayName", .string⟩),
   ("creationDate", ⟨"creationDate", .string⟩),
   ("counter", ⟨"oxCounter", .number⟩),
   ("status", ⟨"oxStatus", .string⟩),
   ("application", ⟨"oxApplication", .string⟩),
   ("meta.lastModified", ⟨"oxLastAccessTime", .string⟩)]

def builtinEntries : Entity → List (String × Mapping)
  | .user => userEntries
  | .group => groupEntries
  | .fidoDevice => fidoDeviceEntries

/-- The built-in table of an entity. It is made by the same insertions as any other table, so a name is kept
    under the key by which it is looked for. -/
def Table.builtin (entity : Entity) (caseSensitive : Bool) : Table :=
  insertAll { entity, caseSensitive } (builtinEntries entity)

def Registry.builtin (caseSensitive : Bool) : Registry :=
  .ofTables (Entity.all.map (fun e => .builtin e caseSensitive))

end ScimLdap.Mapping

import Zaowutai.Lib.Run
import Zaowutai.Lib.Table

/-!
# Signing, verification and revocation of tokens

The service signs with one secret, which can be rotated.  A revoked token is
entered in a blacklist by its hash, together with the time at which the entry
may be removed.  The library that encodes and decodes tokens is a parameter.
-/

namespace Zaowutai.Auth

open Zaowutai.Lib

inductive TokenType where
  | access
  | refresh
  deriving DecidableEq, Repr

/-- The claims embedded in a token; times are in seconds. -/
structure TokenPayload where
  userId : String
  username : String
  iat : ℕ
  exp : ℕ
  iss : String
  aud : String
  sessionGeneration : ℤ
  tokenType : TokenType
  deriving DecidableEq, Repr

inductive AuthError where
  | tokenExpired
  | tokenInvalid (message : String)
  | tokenBlacklisted
  deriving DecidableEq, Repr

def accessTokenExpiry : ℕ := 30 * 24 * 60 * 60

def refreshTokenExpiry : ℕ := 30 * 24 * 60 * 60

def jwtIssuer : String := "aionui"

def jwtAudience : String := "aionui-webui"

/-- What a token is checked for besides its signature. -/
structure Validation where
  validateExp : Bool
  leeway : ℕ
  issuer : String
  audience : String

/-- `Validation::default()` with the issuer and the audience of the service. -/
def serviceValidation : Validation := ⟨true, 60, jwtIssuer, jwtAudience⟩

inductive DecodeError where
  | expiredSignature
  | other (text : String)
  deriving DecidableEq, Repr

structure Jsonwebtoken (Token Hash : Type) where
  encode : TokenPayload → String → Token
  decode : Token → String → Validation → ℕ → Except DecodeError TokenPayload
  tokenHash : Token → Hash
  /-- Exactly the tokens signed with the secret are accepted, until the leeway after their expiry,
  with the right issuer and audience. -/
  decode_eq_ok_iff : ∀ t secret v now p, decode t secret v now = .ok p ↔
    t = encode p secret ∧ (v.validateExp = true → now ≤ p.exp + v.leeway) ∧
      p.iss = v.issuer ∧ p.aud = v.audience
  tokenHash_injective : ∀ t t', tokenHash t = tokenHash t' → t = t'

def plainTokens : Jsonwebtoken (TokenPayload × String) (TokenPayload × String) where
  encode p secret := (p, secret)
  decode t secret v now :=
    if t.2 ≠ secret then .error (.other "InvalidSignature")
    else if v.validateExp = true ∧ t.1.exp + v.leeway < now then .error .expiredSignature
    else if t.1.iss ≠ v.issuer then .error (.other "InvalidIssuer")
    else if t.1.aud ≠ v.audience then .error (.other "InvalidAudience")
    else .ok t.1
  tokenHash := id
  decode_eq_ok_iff := by
    rintro ⟨p', secret'⟩ secret v now p
    split_ifs <;> grind
  tokenHash_injective _ _ h := h

structure JwtService (Hash : Type) where
  secret : String
  blacklist : Table Hash ℕ

namespace JwtService

variable {Token Hash : Type} [DecidableEq Hash] (lib : Jsonwebtoken Token Hash)
  (s : JwtService Hash) (now : ℕ)

def new (secret : String) : JwtService Hash := ⟨secret, ∅⟩

def signClaims (userId username : String) (sessionGeneration : ℤ) (tokenType : TokenType)
    (ttl : ℕ) : Token :=
  lib.encode ⟨userId, username, now, now + ttl, jwtIssuer, jwtAudience, sessionGeneration,
    tokenType⟩ s.secret

def signWithSessionGeneration (userId username : String) (sessionGeneration : ℤ) : Token :=
  s.signClaims lib now userId username sessionGeneration .access accessTokenExpiry

def sign (userId username : String) : Token :=
  s.signWithSessionGeneration lib now userId username 0

def signRefresh (userId username : String) (sessionGeneration : ℤ) : Token :=
  s.signClaims lib now userId username sessionGeneration .refresh refreshTokenExpiry

def verify (t : Token) : Except AuthError TokenPayload :=
  if lib.tokenHash t ∈ s.blacklist then .error .tokenBlacklisted
  else
    match lib.decode t s.secret serviceValidation now with
    | .ok claims => .ok claims
    | .error .expiredSignature => .error .tokenExpired
    | .error (.other text) => .error (.tokenInvalid ("JWT verification failed: " ++ text))

def verifyAccess (t : Token) : Except AuthError TokenPayload :=
  match s.verify lib now t with
  | .error e => .error e
  | .ok payload =>
      if payload.tokenType ≠ .access then .error (.tokenInvalid "expected an access token")
      else .ok payload

def verifyRefresh (t : Token) : Except AuthError TokenPayload :=
  match s.verify lib now t with
  | .error e => .error e
  | .ok payload =>
      if payload.tokenType ≠ .refresh then .error (.tokenInvalid "expected a refresh token")
      else .ok payload

def extractExpiry (t : Token) : Option ℕ :=
  match lib.decode t s.secret { serviceValidation with validateExp := false } now with
  | .ok claims => some claims.exp
  | .error _ => none

def blacklistToken (t : Token) : JwtService Hash :=
  { s with
    blacklist := s.blacklist.insert (lib.tokenHash t)
      ((s.extractExpiry lib now t).getD (now + refreshTokenExpiry)) }

def rotateSecret (s : JwtService Hash) (newSecret : String) : JwtService Hash :=
  { s with secret := newSecret, blacklist := ∅ }

def cleanupBlacklist : JwtService Hash :=
  { s with blacklist := s.blacklist.retain fun _ exp ↦ now < exp }

end JwtService

structure Sessions (Token Hash : Type) where
  service : JwtService Hash
  now : ℕ
  issued : List Token
  revoked : List Token

inductive AuthCall (Token : Type) where
  | sign (userId username : String)
  | signWithSessionGeneration (userId username : String) (sessionGeneration : ℤ)
  | signRefresh (userId username : String) (sessionGeneration : ℤ)
  | verify (t : Token)
  | verifyAccess (t : Token)
  | verifyRefresh (t : Token)
  | blacklistToken (t : Token)
  | rotateSecret (newSecret : String)
  | cleanupBlacklist
  | wait (seconds : ℕ)

namespace Sessions

variable {Token Hash : Type} [DecidableEq Hash] (lib : Jsonwebtoken Token Hash)
  (s : Sessions Token Hash)

def start (secret : String) (now : ℕ) (issued : List Token) :
    Sessions Token Hash :=
  ⟨.new secret, now, issued, []⟩

def step : AuthCall Token → Sessions Token Hash
  | .sign userId username =>
      { s with issued := s.service.sign lib s.now userId username :: s.issued }
  | .signWithSessionGeneration userId username sessionGeneration =>
      { s with
        issued := s.service.signWithSessionGeneration lib s.now userId username
          sessionGeneration :: s.issued }
  | .signRefresh userId username sessionGeneration =>
      { s with
        issued := s.service.signRefresh lib s.now userId username sessionGeneration :: s.issued }
  | .verify _ | .verifyAccess _ | .verifyRefresh _ => s
  | .blacklistToken t =>
      { s with service := s.service.blacklistToken lib s.now t, revoked := t :: s.revoked }
  | .rotateSecret newSecret =>
      { s with service := s.service.rotateSecret newSecret, revoked := s.issued ++ s.revoked }
  | .cleanupBlacklist => { s with service := s.service.cleanupBlacklist s.now }
  | .wait seconds => { s with now := s.now + seconds }

def RevokedRejected : Prop :=
  ∀ t ∈ s.revoked, ∀ payload, s.service.verify lib s.now t ≠ .ok payload ∧
    s.service.verifyAccess lib s.now t ≠ .ok payload ∧
    s.service.verifyRefresh lib s.now t ≠ .ok payload

def DrawsFresh : AuthCall Token → Prop
  | .rotateSecret newSecret => ∀ t ∈ s.issued ++ s.revoked, ∀ p, t ≠ lib.encode p newSecret
  | _ => True

end Sessions

/-!
## Revoked tokens

A revoked token is rejected as long as its hash is blacklisted, its secret is
no longer current, or its leeway has run out.  The blacklist entry lives until
the expiry of the token and the signature check accepts it for the leeway
after that, so a cleanup in between revives it.
-/

namespace Sessions

variable {Token Hash : Type} [DecidableEq Hash] {lib : Jsonwebtoken Token Hash}
  {s : Sessions Token Hash} {t : Token}

/-- The signature check accepts the token with the payload, were it not for its expiry. -/
def Signed (lib : Jsonwebtoken Token Hash) (s : Sessions Token Hash) (t : Token) (p : TokenPayload) : Prop :=
  t = lib.encode p s.service.secret ∧ p.iss = jwtIssuer ∧ p.aud = jwtAudience

def Barred (lib : Jsonwebtoken Token Hash) (s : Sessions Token Hash) (t : Token) : Prop :=
  lib.tokenHash t ∈ s.service.blacklist ∨ ∀ p, Signed lib s t p → p.exp + 60 < s.now

theorem verify_eq_ok_iff {payload : TokenPayload} :
    s.service.verify lib s.now t = .ok payload ↔
      lib.tokenHash t ∉ s.service.blacklist ∧ Signed lib s t payload ∧
        s.now ≤ payload.exp + 60 := by
  have hdecode : lib.decode t s.service.secret serviceValidation s.now = .ok payload ↔
      Signed lib s t payload ∧ s.now ≤ payload.exp + 60 := by
    rw [lib.decode_eq_ok_iff]
    exact ⟨fun ⟨h, hexp, hiss⟩ ↦ ⟨⟨h, hiss⟩, hexp rfl⟩, fun ⟨⟨h, hiss⟩, hexp⟩ ↦ ⟨h, fun _ ↦ hexp, hiss⟩⟩
  rw [JwtService.verify]
  by_cases hlisted : lib.tokenHash t ∈ s.service.blacklist
  · simp [hlisted]
  · rw [if_neg hlisted, ← hdecode]
    cases lib.decode t s.service.secret serviceValidation s.now with
    | ok claims => simp [hlisted]
    | error e => cases e <;> simp

theorem verifyAccess_eq_ok_iff {payload : TokenPayload} :
    s.service.verifyAccess lib s.now t = .ok payload ↔
      s.service.verify lib s.now t = .ok payload ∧ payload.tokenType = .access := by
  rw [JwtService.verifyAccess]
  cases s.service.verify lib s.now t with
  | error e => simp
  | ok found => by_cases htype : found.tokenType = .access <;> grind

theorem verifyRefresh_eq_ok_iff {payload : TokenPayload} :
    s.service.verifyRefresh lib s.now t = .ok payload ↔
      s.service.verify lib s.now t = .ok payload ∧ payload.tokenType = .refresh := by
  rw [JwtService.verifyRefresh]
  cases s.service.verify lib s.now t with
  | error e => simp
  | ok found => by_cases htype : found.tokenType = .refresh <;> grind

theorem rejected_iff_barred :
    (∀ payload, s.service.verify lib s.now t ≠ .ok payload ∧
      s.service.verifyAccess lib s.now t ≠ .ok payload ∧
      s.service.verifyRefresh lib s.now t ≠ .ok payload) ↔ Barred lib s t := by
  constructor
  · intro h
    by_cases hlisted : lib.tokenHash t ∈ s.service.blacklist
    · exact .inl hlisted
    · refine .inr fun p hsigned ↦ not_le.mp fun hle ↦ (h p).1 ?_
      exact verify_eq_ok_iff.mpr ⟨hlisted, hsigned, hle⟩
  · intro h payload
    have hverify : s.service.verify lib s.now t ≠ .ok payload := by
      intro hok
      obtain ⟨hlisted, hsigned, hle⟩ := verify_eq_ok_iff.mp hok
      rcases h with h | h
      · exact hlisted h
      · exact absurd hle (not_le.mpr (h payload hsigned))
    exact ⟨hverify, fun h ↦ hverify (verifyAccess_eq_ok_iff.mp h).1,
      fun h ↦ hverify (verifyRefresh_eq_ok_iff.mp h).1⟩

def EntriesExpire (lib : Jsonwebtoken Token Hash) (s : Sessions Token Hash) : Prop :=
  ∀ t p exp, Signed lib s t p → s.service.blacklist.lookup (lib.tokenHash t) = some exp →
    exp = p.exp

def CleansOutsideLeeway (lib : Jsonwebtoken Token Hash) (s : Sessions Token Hash) : AuthCall Token → Prop
  | .cleanupBlacklist => ∀ t ∈ s.revoked, ∀ p, Signed lib s t p →
      ¬(p.exp ≤ s.now ∧ s.now ≤ p.exp + 60)
  | _ => True

theorem EntriesExpire.step (h : EntriesExpire lib s) (call : AuthCall Token) :
    EntriesExpire lib (s.step lib call) := by
  cases call with
  | sign | signWithSessionGeneration | signRefresh | verify | verifyAccess | verifyRefresh | wait =>
      exact h
  | blacklistToken t' =>
      intro t p exp hsigned hlookup
      change (s.service.blacklist.insert _ _).lookup _ = _ at hlookup
      rw [Table.lookup_insert_eq] at hlookup
      split at hlookup
      · next hhash =>
          have hexpiry : s.service.extractExpiry lib s.now t' = some p.exp := by
            have hdecode : lib.decode t' s.service.secret
                { serviceValidation with validateExp := false } s.now = .ok p := by
              rw [lib.decode_eq_ok_iff, ← lib.tokenHash_injective t t' hhash]
              exact ⟨hsigned.1, fun h ↦ (nomatch h), hsigned.2⟩
            rw [JwtService.extractExpiry, hdecode]
          rw [hexpiry] at hlookup
          exact (Option.some.inj hlookup).symm
      · exact h t p exp hsigned hlookup
  | rotateSecret newSecret =>
      intro t p exp _ hlookup
      cases hlookup
  | cleanupBlacklist =>
      intro t p exp hsigned hlookup
      change (s.service.blacklist.retain _).lookup _ = _ at hlookup
      rw [Table.lookup_retain, Option.filter_eq_some_iff] at hlookup
      exact h t p exp hsigned hlookup.1

omit [DecidableEq Hash] in
theorem Barred.wait (h : Barred lib s t) (seconds : ℕ) :
    Barred lib { s with now := s.now + seconds } t :=
  h.imp_right fun h p hsigned ↦ (h p hsigned).trans_le (Nat.le_add_right _ _)

theorem barred_blacklistToken {t' : Token} (h : t = t' ∨ Barred lib s t) :
    Barred lib (s.step lib (.blacklistToken t')) t := by
  rcases h with rfl | h
  · exact .inl ((AList.mem_insert _).mpr (.inl rfl))
  · exact h.imp_left fun h ↦ (AList.mem_insert _).mpr (.inr h)

theorem barred_rotateSecret {newSecret : String} (h : ∀ p, t ≠ lib.encode p newSecret) :
    Barred lib (s.step lib (.rotateSecret newSecret)) t :=
  .inr fun p hsigned ↦ absurd hsigned.1 (h p)

theorem barred_cleanupBlacklist_iff (hexpire : EntriesExpire lib s) (h : Barred lib s t) :
    Barred lib (s.step lib .cleanupBlacklist) t ↔
      ∀ p, Signed lib s t p → ¬(p.exp ≤ s.now ∧ s.now ≤ p.exp + 60) := by
  have hkept : lib.tokenHash t ∈ (s.step lib .cleanupBlacklist).service.blacklist ↔
      ∃ exp, s.service.blacklist.lookup (lib.tokenHash t) = some exp ∧ s.now < exp := by
    rw [← AList.lookup_isSome, Option.isSome_iff_exists]
    change (∃ exp, (s.service.blacklist.retain _).lookup _ = some exp) ↔ _
    simp only [Table.lookup_retain, Option.filter_eq_some_iff, decide_eq_true_iff]
  constructor
  · rintro (hlisted | hpassed) p hsigned ⟨hexp, hle⟩
    · obtain ⟨exp, hlookup, hlt⟩ := hkept.mp hlisted
      rw [hexpire t p exp hsigned hlookup] at hlt
      omega
    · have hlt : p.exp + 60 < s.now := hpassed p hsigned
      omega
  · intro houtside
    rcases h with hlisted | hpassed
    · by_cases hfresh : ∃ p, Signed lib s t p ∧ s.now ≤ p.exp + 60
      · obtain ⟨p, hsigned, hle⟩ := hfresh
        obtain ⟨exp, hlookup⟩ := Option.isSome_iff_exists.mp (AList.lookup_isSome.mpr hlisted)
        have hlt : s.now < p.exp := by
          by_contra hexp
          exact houtside p hsigned ⟨not_lt.mp hexp, hle⟩
        refine .inl (hkept.mpr ⟨exp, hlookup, ?_⟩)
        rwa [hexpire t p exp hsigned hlookup]
      · refine .inr fun p hsigned ↦ ?_
        by_contra hle
        exact hfresh ⟨p, hsigned, not_lt.mp hle⟩
    · exact .inr hpassed

theorem revokedRejected_iff : RevokedRejected lib s ↔ ∀ t ∈ s.revoked, Barred lib s t :=
  forall₂_congr fun _ _ ↦ rejected_iff_barred

theorem RevokedRejected.step_iff (hexpire : EntriesExpire lib s) (h : RevokedRejected lib s)
    {call : AuthCall Token} (hfresh : s.DrawsFresh lib call) :
    RevokedRejected lib (s.step lib call) ↔ CleansOutsideLeeway lib s call := by
  rw [revokedRejected_iff] at h ⊢
  cases call with
  | sign | signWithSessionGeneration | signRefresh | verify | verifyAccess | verifyRefresh =>
      exact iff_of_true h trivial
  | wait seconds => exact iff_of_true (fun t ht ↦ (h t ht).wait seconds) trivial
  | blacklistToken t' =>
      refine iff_of_true (fun t ht ↦ barred_blacklistToken ?_) trivial
      exact (List.mem_cons.mp ht).imp_right (h t)
  | rotateSecret newSecret =>
      exact iff_of_true (fun t ht ↦ barred_rotateSecret (hfresh t ht)) trivial
  | cleanupBlacklist =>
      exact forall₂_congr fun t ht ↦ barred_cleanupBlacklist_iff hexpire (h t ht)

/-- Revoked tokens stay rejected along a run exactly when no cleanup finds one of them inside its
leeway. -/
theorem revokedRejected_iff_cleansOutsideLeeway (lib : Jsonwebtoken Token Hash) (secret : String)
    (now : ℕ) (issued : List Token) (calls : List (AuthCall Token))
    (hfresh : Meets (step lib) (DrawsFresh lib) (start secret now issued) calls) :
    Throughout (step lib) (RevokedRejected lib) (start secret now issued) calls ↔
      Meets (step lib) (CleansOutsideLeeway lib) (start secret now issued) calls := by
  refine throughout_iff_meets_of_meets (fun s call h ↦ EntriesExpire.step h call)
    (fun s call hexpire h hfresh ↦ h.step_iff hexpire hfresh) ?_ ?_ hfresh
  · intro t p exp _ hlookup
    cases hlookup
  · exact fun t ht ↦ absurd ht List.not_mem_nil

/-- A token is issued, blacklisted and revoked once more by a rotation. -/
def rotatedAway : List (AuthCall (TokenPayload × String)) :=
  [.sign "user" "admin", .rotateSecret "second", .cleanupBlacklist, .signRefresh "user" "admin" 1]

theorem rotatedAway_rejected :
    Throughout (step plainTokens) (RevokedRejected plainTokens) (start "first" 0 []) rotatedAway ↔
      Meets (step plainTokens) (CleansOutsideLeeway plainTokens) (start "first" 0 []) rotatedAway :=
  revokedRejected_iff_cleansOutsideLeeway plainTokens "first" 0 [] rotatedAway
    ⟨trivial, by simp [DrawsFresh, step, start, plainTokens, JwtService.sign,
      JwtService.signWithSessionGeneration, JwtService.signClaims, JwtService.new], trivial, trivial,
      trivial⟩

def firstToken : TokenPayload × String :=
  (⟨"user", "admin", 0, 2592000, jwtIssuer, jwtAudience, 0, .access⟩, "first")

/-- A blacklisted token expires, its entry is cleaned up, and it is accepted again. -/
theorem cleaned_token_accepted :
    ¬∀ (Token Hash : Type) [DecidableEq Hash] (lib : Jsonwebtoken Token Hash) (secret : String)
      (now : ℕ) (issued : List Token) (calls : List (AuthCall Token)),
        Meets (step lib) (DrawsFresh lib) (start secret now issued) calls →
          Throughout (step lib) (RevokedRejected lib) (start secret now issued) calls := by
  intro h
  have hrun := h _ _ plainTokens "first" 0 []
    [.sign "user" "admin", .blacklistToken firstToken, .wait 2592000, .cleanupBlacklist]
    ⟨trivial, trivial, trivial, trivial, trivial⟩
  have hrejected := hrun.last firstToken List.mem_cons_self firstToken.1
  exact hrejected.1 (by decide)

omit [DecidableEq Hash] in
theorem Signed.unique {p p' : TokenPayload} (h : Signed lib s t p) (h' : Signed lib s t p') :
    p = p' := by
  have hdecode := lib.decode_eq_ok_iff t s.service.secret ⟨false, 0, jwtIssuer, jwtAudience⟩ 0
  have hp := (hdecode p).mpr ⟨h.1, (fun hexp ↦ by cases hexp), h.2⟩
  rw [(hdecode p').mpr ⟨h'.1, (fun hexp ↦ by cases hexp), h'.2⟩] at hp
  exact (Except.ok.inj hp).symm

/-- The call does not revoke the token. -/
def Spares (t : Token) : AuthCall Token → Prop
  | .blacklistToken t' => t' ≠ t
  | .rotateSecret _ => False
  | _ => True

theorem spared_step {call : AuthCall Token} (h : lib.tokenHash t ∉ s.service.blacklist)
    (hcall : Spares t call) :
    lib.tokenHash t ∉ (s.step lib call).service.blacklist ∧
      (s.step lib call).service.secret = s.service.secret := by
  cases call with
  | sign | signWithSessionGeneration | signRefresh | verify | verifyAccess | verifyRefresh | wait =>
      exact ⟨h, rfl⟩
  | blacklistToken t' =>
      refine ⟨fun hmem ↦ ?_, rfl⟩
      rcases (AList.mem_insert _).mp hmem with hhash | hmem
      · exact hcall (lib.tokenHash_injective t t' hhash).symm
      · exact h hmem
  | rotateSecret newSecret => cases hcall
  | cleanupBlacklist =>
      refine ⟨fun hmem ↦ h ?_, rfl⟩
      rw [← AList.lookup_isSome, Option.isSome_iff_exists] at hmem ⊢
      obtain ⟨exp, hlookup⟩ := hmem
      change (s.service.blacklist.retain _).lookup _ = some exp at hlookup
      rw [Table.lookup_retain, Option.filter_eq_some_iff] at hlookup
      exact ⟨exp, hlookup.1⟩

/-- Along every run that does not revoke it, a token is accepted in its own place with what was
signed, and with nothing else, until its leeway is over. -/
theorem signed_accepted (lib : Jsonwebtoken Token Hash) {s : Sessions Token Hash}
    {signed payload : TokenPayload} {calls : List (AuthCall Token)} (hs : Signed lib s t signed)
    (h : lib.tokenHash t ∉ s.service.blacklist) (hcalls : ∀ call ∈ calls, Spares t call) :
    let s' := run (step lib) s calls
    (s'.service.verifyAccess lib s'.now t = .ok payload ↔
      payload = signed ∧ s'.now ≤ signed.exp + 60 ∧ signed.tokenType = .access) ∧
    (s'.service.verifyRefresh lib s'.now t = .ok payload ↔
      payload = signed ∧ s'.now ≤ signed.exp + 60 ∧ signed.tokenType = .refresh) := by
  intro s'
  have hspared : Meets (step lib) (fun _ call ↦ Spares t call) s calls := meets_of_forall hcalls
  obtain ⟨hfree, hsecret⟩ := run_of_meets (P := fun s' : Sessions Token Hash ↦
      lib.tokenHash t ∉ s'.service.blacklist ∧ s'.service.secret = s.service.secret)
    (fun s' call hs' hcall ↦ (spared_step hs'.1 hcall).imp_right (·.trans hs'.2)) ⟨h, rfl⟩ hspared
  have hs' : Signed lib s' t signed := by rwa [Signed, hsecret]
  have hverify : s'.service.verify lib s'.now t = .ok payload ↔
      payload = signed ∧ s'.now ≤ signed.exp + 60 := by
    rw [verify_eq_ok_iff, and_iff_right hfree]
    constructor
    · rintro ⟨hp, hnow⟩
      obtain rfl := hp.unique hs'
      exact ⟨rfl, hnow⟩
    · rintro ⟨rfl, hnow⟩
      exact ⟨hs', hnow⟩
  rw [verifyAccess_eq_ok_iff, verifyRefresh_eq_ok_iff, hverify, and_assoc, and_assoc]
  exact ⟨and_congr_right fun h ↦ by rw [h], and_congr_right fun h ↦ by rw [h]⟩

theorem firstToken_accepted :
    let s' := run (step plainTokens) (start "first" 0 []) [.wait 2592060, .cleanupBlacklist]
    s'.service.verifyAccess plainTokens s'.now firstToken = .ok firstToken.1 :=
  (signed_accepted plainTokens ⟨rfl, rfl, rfl⟩ (by decide) (by simp [Spares])).1.mpr
    ⟨rfl, by decide, rfl⟩

end Sessions

end Zaowutai.Auth

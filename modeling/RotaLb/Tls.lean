import RotaLb.Metrics

/-!
# TLS Backends

`TlsConfig` describes a TLS client, `build_client_config` hands the description to `rustls`, and a
`TlsBackend` performs a handshake over every connection of the backend it wraps. `rustls` itself
is not modelled: `Rustls` lists the functions the code calls, over any types of certificates, keys
and trust anchors, and `WebPki` is what is assumed of the verdict on a certificate.

With `danger_bypass_hostname_check_only` the verifier is wrapped in a `NoHostnameVerifier`, which
replaces the name of the server by the address 0.0.0.0 and leaves the rest to the wrapped
verifier. The name check is not skipped that way: it is made against another name, and a
certificate without that address is refused whatever its chain.

## Main results

* `TlsConfig.buildClientConfig_eq_ok`: when a client is built, and which.
* `TlsConfig.bypass_chain_iff`: **the bypass leaves exactly the check of the chain if and only if
  a certificate whose chain validates is valid for 0.0.0.0.**
* `TlsBackend.dial_bypass_valid`: every connection of a backend with the bypass is to a server
  whose certificate is valid for 0.0.0.0.
* `TlsBackend.dial_bypass_iff`: of the dials that succeed without the bypass, those succeed with
  it whose certificate is valid for that address.
-/

namespace RotaLb

open Rust

/-! ### `rustls` -/

/-- `rustls::pki_types::IpAddr`. -/
inductive IpAddr
  | v4 (octets : BitVec 32)
  | v6 (octets : BitVec 128)
  deriving DecidableEq, Repr

/-- `Ipv4Addr::UNSPECIFIED`, the address 0.0.0.0. -/
def UNSPECIFIED : IpAddr := .v4 0

/-- `rustls::pki_types::ServerName`. -/
inductive ServerName
  | dnsName (name : String)
  | ipAddress (addr : IpAddr)
  deriving DecidableEq, Repr

/-- What the code calls of `rustls`. Errors are given by their texts, and times are in seconds. -/
structure Rustls (Cert Key Anchor : Type) where
  /-- `RootCertStore::add`: the trust anchor of a root certificate. -/
  addRoot : Cert → Except String Anchor
  loadNativeCerts : Except String (List Cert)
  /-- `WebPkiServerVerifier::builder(roots).build()`. -/
  buildVerifier : List Anchor → Except String Unit
  /-- `WebPkiServerVerifier::verify_server_cert`. -/
  verifyServerCert (roots : List Anchor) (endEntity : Cert) (intermediates : List Cert)
    (serverName : ServerName) (ocsp : List UInt8) (now : ℕ) : Except String Unit
  /-- `with_client_auth_cert`. -/
  clientAuthCert : List Cert → Key → Except String Unit
  /-- `DnsName::try_from`. -/
  dnsName : String → Except String String

variable {Cert Key Anchor : Type}

/-- What is assumed of `WebPkiServerVerifier`: it accepts a certificate if the chain validates
against the roots and the certificate is valid for the name. -/
structure WebPki (R : Rustls Cert Key Anchor) where
  chainValidates (roots : List Anchor) (endEntity : Cert) (intermediates : List Cert) (now : ℕ) :
    Prop
  validFor (endEntity : Cert) (serverName : ServerName) : Prop
  verify_iff : ∀ roots endEntity intermediates serverName ocsp now,
    R.verifyServerCert roots endEntity intermediates serverName ocsp now = .ok () ↔
      chainValidates roots endEntity intermediates now ∧ validFor endEntity serverName

/-! ### Verifiers and clients -/

/-- The verifier of a client, with the roots of its `WebPkiServerVerifier`. -/
inductive ServerCertVerifier (Anchor : Type)
  | webPki (roots : List Anchor)
  | noHostname (roots : List Anchor)
  deriving DecidableEq, Repr

/-- `ServerCertVerifier::verify_server_cert`. -/
def ServerCertVerifier.verifyServerCert (R : Rustls Cert Key Anchor)
    (verifier : ServerCertVerifier Anchor) (endEntity : Cert) (intermediates : List Cert)
    (serverName : ServerName) (ocsp : List UInt8) (now : ℕ) : Except String Unit :=
  match verifier with
  | .webPki roots => R.verifyServerCert roots endEntity intermediates serverName ocsp now
  | .noHostname roots =>
    let anyName := .ipAddress UNSPECIFIED
    R.verifyServerCert roots endEntity intermediates anyName ocsp now

/-- `rustls::ClientConfig`. -/
structure ClientConfig (Cert Key Anchor : Type) where
  verifier : ServerCertVerifier Anchor
  clientAuth : Option (List Cert × Key)
  alpnProtocols : List (List UInt8)

/-- The client accepts the certificate of a server. -/
def ClientConfig.Accepts (R : Rustls Cert Key Anchor) (client : ClientConfig Cert Key Anchor)
    (endEntity : Cert) (intermediates : List Cert) (serverName : ServerName) (ocsp : List UInt8)
    (now : ℕ) : Prop :=
  client.verifier.verifyServerCert R endEntity intermediates serverName ocsp now = .ok ()

/-! ### Configuration -/

/-- The protocols `h2` and `http/1.1`. -/
def DEFAULT_ALPN_PROTOCOLS : List (List UInt8) :=
  [[0x68, 0x32], [0x68, 0x74, 0x74, 0x70, 0x2f, 0x31, 0x2e, 0x31]]

/-- `TlsConfig`. -/
structure TlsConfig (Cert Key : Type) where
  serverName : String
  rootCerts : Option (List Cert)
  clientCert : Option (List Cert × Key)
  verifyHostname : Bool
  connectTimeout : Option Duration
  alpnProtocols : List (List UInt8)

namespace TlsConfig

/-- `TlsConfig::new`. -/
def new (serverName : String) : TlsConfig Cert Key where
  serverName := serverName
  rootCerts := none
  clientCert := none
  verifyHostname := true
  connectTimeout := none
  alpnProtocols := DEFAULT_ALPN_PROTOCOLS

def withRootCerts (config : TlsConfig Cert Key) (certs : List Cert) : TlsConfig Cert Key :=
  { config with rootCerts := some certs }

def withClientCert (config : TlsConfig Cert Key) (certs : List Cert) (key : Key) :
    TlsConfig Cert Key :=
  { config with clientCert := some (certs, key) }

def dangerBypassHostnameCheckOnly (config : TlsConfig Cert Key) : TlsConfig Cert Key :=
  { config with verifyHostname := false }

def withConnectTimeout (config : TlsConfig Cert Key) (timeout : Duration) : TlsConfig Cert Key :=
  { config with connectTimeout := some timeout }

def withAlpnProtocols (config : TlsConfig Cert Key) (protocols : List (List UInt8)) :
    TlsConfig Cert Key :=
  { config with alpnProtocols := protocols }

variable (R : Rustls Cert Key Anchor)

/-- The root store: the given certificates, or those of the system. -/
def rootStore (config : TlsConfig Cert Key) : Except Error (List Anchor) := do
  let certs ← match config.rootCerts with
    | some certs => .ok certs
    | none => R.loadNativeCerts.mapError fun e => .backend s!"failed to load native certs: {e}"
  certs.mapM fun cert => (R.addRoot cert).mapError fun e =>
    .backend s!"failed to add root cert: {e}"

/-- The check of the client certificate, if there is one. -/
def clientAuth (config : TlsConfig Cert Key) : Except Error Unit :=
  match config.clientCert with
  | some (certs, key) =>
    (R.clientAuthCert certs key).mapError fun e => .backend s!"client cert: {e}"
  | none => .ok ()

/-- The verifier over the given roots. -/
def verifier (config : TlsConfig Cert Key) (roots : List Anchor) : ServerCertVerifier Anchor :=
  if config.verifyHostname then .webPki roots else .noHostname roots

/-- `TlsConfig::build_client_config`. -/
def buildClientConfig (config : TlsConfig Cert Key) :
    Except Error (ClientConfig Cert Key Anchor) := do
  let roots ← config.rootStore R
  (R.buildVerifier roots).mapError fun e => .backend s!"verifier builder: {e}"
  config.clientAuth R
  return {
    verifier := config.verifier roots
    clientAuth := config.clientCert
    alpnProtocols := config.alpnProtocols }

end TlsConfig

/-! ### What a client accepts -/

namespace TlsConfig

variable {R : Rustls Cert Key Anchor} {config : TlsConfig Cert Key} {roots : List Anchor}
  {client : ClientConfig Cert Key Anchor}

/-- **When a client is built, and which.** -/
theorem buildClientConfig_eq_ok :
    config.buildClientConfig R = .ok client ↔ ∃ roots, config.rootStore R = .ok roots ∧
      R.buildVerifier roots = .ok () ∧ config.clientAuth R = .ok () ∧
      client = ⟨config.verifier roots, config.clientCert, config.alpnProtocols⟩ := by
  simp only [buildClientConfig, bind_eq_ok, mapError_eq_ok, pure, Except.pure, Except.ok.injEq]
  constructor
  · rintro ⟨roots, hroots, ⟨⟩, hverifier, ⟨⟩, hauth, rfl⟩
    exact ⟨roots, hroots, hverifier, hauth, rfl⟩
  · rintro ⟨roots, hroots, hverifier, hauth, rfl⟩
    exact ⟨roots, hroots, (), hverifier, (), hauth, rfl⟩

theorem exists_buildClientConfig_iff :
    (∃ client, config.buildClientConfig R = .ok client) ↔ ∃ roots,
      config.rootStore R = .ok roots ∧ R.buildVerifier roots = .ok () ∧
        config.clientAuth R = .ok () := by
  simp only [buildClientConfig_eq_ok]
  constructor
  · rintro ⟨_, roots, hroots, hverifier, hauth, -⟩
    exact ⟨roots, hroots, hverifier, hauth⟩
  · rintro ⟨roots, hroots, hverifier, hauth⟩
    exact ⟨_, roots, hroots, hverifier, hauth, rfl⟩

/-- The bypass has no part in whether a client is built. -/
theorem bypass_builds_iff :
    (∃ client, config.dangerBypassHostnameCheckOnly.buildClientConfig R = .ok client) ↔
      ∃ client, config.buildClientConfig R = .ok client := by
  rw [exists_buildClientConfig_iff, exists_buildClientConfig_iff]
  rfl

theorem verifier_of_verify (h : config.verifyHostname = true) :
    config.verifier roots = .webPki roots := by
  rw [verifier, h, if_pos rfl]

theorem verifier_of_bypass (h : config.verifyHostname = false) :
    config.verifier roots = .noHostname roots := by
  rw [verifier, h, if_neg Bool.false_ne_true]

/-- The verifier of the client is the one of the configuration, over its root store. -/
theorem verifier_of_build (hroots : config.rootStore R = .ok roots)
    (hclient : config.buildClientConfig R = .ok client) :
    client.verifier = config.verifier roots := by
  obtain ⟨roots', hroots', -, -, rfl⟩ := buildClientConfig_eq_ok.mp hclient
  cases hroots.symm.trans hroots'
  rfl

end TlsConfig

namespace ClientConfig

variable {R : Rustls Cert Key Anchor} {client : ClientConfig Cert Key Anchor} {roots : List Anchor}
  {endEntity : Cert} {intermediates : List Cert} {serverName : ServerName} {ocsp : List UInt8}
  {now : ℕ}

/-- What a client without the bypass accepts. -/
theorem accepts_webPki (W : WebPki R) (hclient : client.verifier = .webPki roots) :
    client.Accepts R endEntity intermediates serverName ocsp now ↔
      W.chainValidates roots endEntity intermediates now ∧ W.validFor endEntity serverName := by
  rw [Accepts, hclient]
  exact W.verify_iff roots endEntity intermediates serverName ocsp now

/-- What a client with the bypass accepts: the name is replaced, not ignored. -/
theorem accepts_noHostname (W : WebPki R) (hclient : client.verifier = .noHostname roots) :
    client.Accepts R endEntity intermediates serverName ocsp now ↔
      W.chainValidates roots endEntity intermediates now ∧
        W.validFor endEntity (.ipAddress UNSPECIFIED) := by
  rw [Accepts, hclient]
  exact W.verify_iff roots endEntity intermediates (.ipAddress UNSPECIFIED) ocsp now

end ClientConfig

/-- **What the bypass leaves of the checks.** Whatever a server presents, a client built with the
bypass gives one verdict for all server names; and this verdict is the one on the chain if and
only if the chain does not validate or the certificate is valid for 0.0.0.0. -/
theorem TlsConfig.bypass_chain_iff {R : Rustls Cert Key Anchor} (W : WebPki R)
    {config : TlsConfig Cert Key} {roots : List Anchor} {client : ClientConfig Cert Key Anchor}
    (hbypass : config.verifyHostname = false) (hroots : config.rootStore R = .ok roots)
    (hclient : config.buildClientConfig R = .ok client) (endEntity : Cert)
    (intermediates : List Cert) (ocsp : List UInt8) (now : ℕ) :
    (∀ serverName serverName', client.Accepts R endEntity intermediates serverName ocsp now ↔
        client.Accepts R endEntity intermediates serverName' ocsp now) ∧
      ((∀ serverName, client.Accepts R endEntity intermediates serverName ocsp now ↔
          W.chainValidates roots endEntity intermediates now) ↔
        (W.chainValidates roots endEntity intermediates now →
          W.validFor endEntity (.ipAddress UNSPECIFIED))) := by
  have hverifier : client.verifier = .noHostname roots := by
    rw [verifier_of_build hroots hclient, verifier_of_bypass hbypass]
  simp only [ClientConfig.accepts_noHostname W hverifier, implies_true, true_and,
    and_iff_left_iff_imp]
  exact ⟨fun h => h (.ipAddress UNSPECIFIED), fun h _ => h⟩

/-! ### A concrete `rustls` -/

namespace Pki

/-- A certificate with its issuer, the names it is valid for and its last second. -/
structure Certificate where
  subject : String
  issuer : String
  names : List ServerName := []
  notAfter : ℕ := 0
  deriving DecidableEq, Repr

/-- The issuer is a root, or one of the intermediates that a root has issued. -/
def chain (roots : List String) (endEntity : Certificate) (intermediates : List Certificate)
    (now : ℕ) : Bool :=
  now ≤ endEntity.notAfter &&
    (endEntity.issuer ∈ roots ||
      intermediates.any fun cert => cert.subject = endEntity.issuer && cert.issuer ∈ roots)

/-- The trust anchor of a certificate is its subject. -/
def rustls : Rustls Certificate Unit String where
  addRoot cert := if cert.issuer = cert.subject then .ok cert.subject else .error "not a root"
  loadNativeCerts := .error "no system store"
  buildVerifier roots := if roots = [] then .error "no root trust anchors" else .ok ()
  verifyServerCert roots endEntity intermediates serverName _ now :=
    if chain roots endEntity intermediates now then
      if serverName ∈ endEntity.names then .ok () else .error "not valid for name"
    else .error "unknown issuer"
  clientAuthCert _ _ := .ok ()
  dnsName name := if name = "" then .error "invalid dns name" else .ok name

def webPki : WebPki rustls where
  chainValidates roots endEntity intermediates now :=
    chain roots endEntity intermediates now = true
  validFor endEntity serverName := serverName ∈ endEntity.names
  verify_iff roots endEntity intermediates serverName _ now := by
    unfold rustls
    by_cases hchain : chain roots endEntity intermediates now = true
    · by_cases hname : serverName ∈ endEntity.names
      · simp [hchain, hname]
      · simp [hchain, hname]
    · simp [hchain]

/-- A client for `example.com` that trusts one root. -/
def config : TlsConfig Certificate Unit :=
  (TlsConfig.new "example.com").withRootCerts [{ subject := "root", issuer := "root" }]

/-- The certificate of `example.com`, issued by the root. -/
def site : Certificate where
  subject := "site"
  issuer := "root"
  names := [.dnsName "example.com"]
  notAfter := 100

/-- The same certificate, valid for 0.0.0.0 as well. -/
def anySite : Certificate := { site with names := [.dnsName "example.com", .ipAddress UNSPECIFIED] }

/-- With the address in its certificate the server is accepted under every name. -/
theorem bypass_chain_anySite :
    ∃ client, config.dangerBypassHostnameCheckOnly.buildClientConfig rustls = .ok client ∧
      webPki.chainValidates ["root"] anySite [] 50 ∧
      ∀ serverName, client.Accepts rustls anySite [] serverName [] 50 ↔
        webPki.chainValidates ["root"] anySite [] 50 := by
  have hchain : chain ["root"] anySite [] 50 = true := by decide
  have hvalid : ServerName.ipAddress UNSPECIFIED ∈ anySite.names := by decide
  have hroots : config.dangerBypassHostnameCheckOnly.rootStore rustls = .ok ["root"] := rfl
  have hclient : config.dangerBypassHostnameCheckOnly.buildClientConfig rustls =
      .ok ⟨.noHostname ["root"], none, DEFAULT_ALPN_PROTOCOLS⟩ := rfl
  exact ⟨_, hclient, hchain,
    (TlsConfig.bypass_chain_iff webPki rfl hroots hclient anySite [] [] 50).2.mpr fun _ => hvalid⟩

/-- Without it the server is refused under every name, although its chain validates and the
client without the bypass accepts it. -/
theorem bypass_refuses_site :
    webPki.chainValidates ["root"] site [] 50 ∧
      (∃ strict, config.buildClientConfig rustls = .ok strict ∧
        strict.Accepts rustls site [] (.dnsName "example.com") [] 50) ∧
      ∃ client, config.dangerBypassHostnameCheckOnly.buildClientConfig rustls = .ok client ∧
        ∀ serverName, ¬ client.Accepts rustls site [] serverName [] 50 := by
  have hchain : chain ["root"] site [] 50 = true := by decide
  have hvalid : ServerName.ipAddress UNSPECIFIED ∉ site.names := by decide
  refine ⟨hchain, ⟨_, rfl, rfl⟩, _, rfl, fun serverName haccepts => ?_⟩
  exact hvalid ((ClientConfig.accepts_noHostname webPki rfl).mp haccepts).2

end Pki

/-! ### Backends -/

/-- A handshake: what comes before the certificate of the server, the certificate and the time at
which it is checked, and what comes after it. The signature of the server is part of the last; both
verifiers check it alike. -/
structure Handshake (Cert : Type) where
  hello : Except String Unit
  endEntity : Cert
  intermediates : List Cert
  ocsp : List UInt8
  now : ℕ
  finish : Except String Unit

/-- A connection, given by the server at its other end. The server sees the name it is asked for,
the certificate of the client and the protocols, but not the verifier. -/
abbrev Server (Cert Key : Type) :=
  ServerName → Option (List Cert × Key) → List (List UInt8) → Handshake Cert

/-- `TlsConnection`, with the certificate of the server. -/
structure TlsConnection (Cert Key : Type) where
  stream : Server Cert Key
  endEntity : Cert

/-- The handshake of a client over a connection. -/
def ClientConfig.handshake (client : ClientConfig Cert Key Anchor) (serverName : ServerName)
    (conn : Server Cert Key) : Handshake Cert :=
  conn serverName client.clientAuth client.alpnProtocols

/-- `TlsConnector::connect`. -/
def ClientConfig.connect (R : Rustls Cert Key Anchor) (client : ClientConfig Cert Key Anchor)
    (serverName : ServerName) (conn : Server Cert Key) :
    Except String (TlsConnection Cert Key) := do
  let h := client.handshake serverName conn
  h.hello
  client.verifier.verifyServerCert R h.endEntity h.intermediates serverName h.ocsp h.now
  h.finish
  return ⟨conn, h.endEntity⟩

/-- A handshake that completes, and the connection it leads to. -/
structure ClientConfig.Completes (R : Rustls Cert Key Anchor)
    (client : ClientConfig Cert Key Anchor) (serverName : ServerName) (conn : Server Cert Key)
    (c : TlsConnection Cert Key) : Prop where
  hello : (client.handshake serverName conn).hello = .ok ()
  accepts : client.Accepts R c.endEntity (client.handshake serverName conn).intermediates serverName
    (client.handshake serverName conn).ocsp (client.handshake serverName conn).now
  finish : (client.handshake serverName conn).finish = .ok ()
  connection : c = ⟨conn, (client.handshake serverName conn).endEntity⟩

theorem ClientConfig.connect_eq_ok {R : Rustls Cert Key Anchor}
    {client : ClientConfig Cert Key Anchor} {serverName : ServerName} {conn : Server Cert Key}
    {c : TlsConnection Cert Key} :
    client.connect R serverName conn = .ok c ↔ client.Completes R serverName conn c := by
  simp only [connect, bind_eq_ok, pure, Except.pure, Except.ok.injEq]
  constructor
  · rintro ⟨⟨⟩, hhello, ⟨⟩, haccepts, ⟨⟩, hfinish, rfl⟩
    exact ⟨hhello, haccepts, hfinish, rfl⟩
  · rintro ⟨hhello, haccepts, hfinish, rfl⟩
    exact ⟨(), hhello, (), haccepts, (), hfinish, rfl⟩

/-- `TlsBackend`, around the dials of the wrapped backend. -/
structure TlsBackend (Cert Key Anchor : Type) where
  inner : String → Except Error (Server Cert Key)
  serverName : String
  tlsConnector : ClientConfig Cert Key Anchor

namespace TlsBackend

/-- `TlsBackend::new`. -/
def new (R : Rustls Cert Key Anchor) (inner : String → Except Error (Server Cert Key))
    (config : TlsConfig Cert Key) : Except Error (TlsBackend Cert Key Anchor) := do
  let tlsConnector ← config.buildClientConfig R
  return { inner, serverName := config.serverName, tlsConnector }

/-- `TlsBackend::connect_tls`. -/
def connectTls (R : Rustls Cert Key Anchor) (connector : ClientConfig Cert Key Anchor)
    (serverName : String) (conn : Server Cert Key) : Except Error (TlsConnection Cert Key) := do
  let dnsName ← (R.dnsName serverName).mapError fun e => .backend s!"invalid server name: {e}"
  (connector.connect R (.dnsName dnsName) conn).mapError fun e =>
    .backend s!"TLS handshake failed: {e}"

/-- `TlsBackend::dial`. -/
def dial (R : Rustls Cert Key Anchor) (backend : TlsBackend Cert Key Anchor) (addr : String) :
    Except Error (TlsConnection Cert Key) := do
  let conn ← backend.inner addr
  connectTls R backend.tlsConnector backend.serverName conn

variable {R : Rustls Cert Key Anchor} {inner : String → Except Error (Server Cert Key)}
  {config : TlsConfig Cert Key} {backend strict bypass : TlsBackend Cert Key Anchor}
  {addr : String} {c : TlsConnection Cert Key}

/-- The timeout of a configuration is stored and never read. -/
theorem new_withConnectTimeout (timeout : Duration) :
    new R inner (config.withConnectTimeout timeout) = new R inner config :=
  rfl

/-- A backend is created exactly when its client is built. -/
theorem new_eq_ok : new R inner config = .ok backend ↔ ∃ client,
    config.buildClientConfig R = .ok client ∧ backend = ⟨inner, config.serverName, client⟩ := by
  simp only [new, bind_eq_ok, pure, Except.pure, Except.ok.injEq, eq_comm (a := backend)]

/-- The verifier of a backend is the one of its configuration. -/
theorem verifier_of_new (h : new R inner config = .ok backend) :
    ∃ roots, config.rootStore R = .ok roots ∧
      backend.tlsConnector.verifier = config.verifier roots := by
  obtain ⟨client, hclient, rfl⟩ := new_eq_ok.mp h
  obtain ⟨roots, hroots, -, -, rfl⟩ := TlsConfig.buildClientConfig_eq_ok.mp hclient
  exact ⟨roots, hroots, rfl⟩

/-- **When a dial succeeds**: the wrapped backend dials, the name of the server is a DNS name, and
the handshake completes. -/
theorem dial_eq_ok : backend.dial R addr = .ok c ↔ ∃ conn name,
    backend.inner addr = .ok conn ∧ R.dnsName backend.serverName = .ok name ∧
      backend.tlsConnector.Completes R (.dnsName name) conn c := by
  simp only [dial, connectTls, bind_eq_ok, mapError_eq_ok, ClientConfig.connect_eq_ok]
  constructor
  · rintro ⟨conn, hconn, name, hname, hcompletes⟩
    exact ⟨conn, name, hconn, hname, hcompletes⟩
  · rintro ⟨conn, name, hconn, hname, hcompletes⟩
    exact ⟨conn, hconn, name, hname, hcompletes⟩

/-- **Every connection of a backend with the bypass** is to a server whose certificate is valid for
0.0.0.0. -/
theorem dial_bypass_valid (W : WebPki R) (hbypass : config.verifyHostname = false)
    (hnew : new R inner config = .ok backend) (hdial : backend.dial R addr = .ok c) :
    W.validFor c.endEntity (.ipAddress UNSPECIFIED) := by
  obtain ⟨roots, -, hverifier⟩ := verifier_of_new hnew
  rw [TlsConfig.verifier_of_bypass hbypass] at hverifier
  obtain ⟨conn, name, -, -, hcompletes⟩ := dial_eq_ok.mp hdial
  exact ((ClientConfig.accepts_noHostname W hverifier).mp hcompletes.accepts).2

/-- **The bypass takes dials away**: a dial that succeeds without it succeeds with it if and only if
the certificate of the server is valid for 0.0.0.0. -/
theorem dial_bypass_iff (W : WebPki R) (hverify : config.verifyHostname = true)
    (hstrict : new R inner config = .ok strict)
    (hbypass : new R inner config.dangerBypassHostnameCheckOnly = .ok bypass)
    (hdial : strict.dial R addr = .ok c) :
    bypass.dial R addr = .ok c ↔ W.validFor c.endEntity (.ipAddress UNSPECIFIED) := by
  refine ⟨dial_bypass_valid W rfl hbypass, fun hvalid => ?_⟩
  -- both clients lead the same handshake and differ in the verifier alone
  obtain ⟨_, hstrict', rfl⟩ := new_eq_ok.mp hstrict
  obtain ⟨_, hbypass', rfl⟩ := new_eq_ok.mp hbypass
  obtain ⟨roots, hroots, -, -, rfl⟩ := TlsConfig.buildClientConfig_eq_ok.mp hstrict'
  obtain ⟨roots', hroots', -, -, rfl⟩ := TlsConfig.buildClientConfig_eq_ok.mp hbypass'
  cases hroots.symm.trans hroots'
  obtain ⟨conn, name, hconn, hname, hcompletes⟩ := dial_eq_ok.mp hdial
  have hverifier : config.verifier roots = .webPki roots := TlsConfig.verifier_of_verify hverify
  have hchain := ((ClientConfig.accepts_webPki W hverifier).mp hcompletes.accepts).1
  exact dial_eq_ok.mpr ⟨conn, name, hconn, hname,
    { hcompletes with accepts := (ClientConfig.accepts_noHostname W rfl).mpr ⟨hchain, hvalid⟩ }⟩

end TlsBackend

end RotaLb

import Erbridge.Config.MapFlagSyntax

/-!
# The rules of `client` from a config file and from flags

The `--map` flags of `client` (`parse_client_map_flag` of `config.rs`), `resolve_client` of `main.rs` and
the checks with which `run_client` begins.

* `parseClientMapFlag` — the flag `LOCAL_LISTEN->SERVER_ADDR[/tls|/noise]`.
* `ClientReads`, `parseClientMapFlag_eq_ok_iff` — what it accepts.
* `same_transport` — a flag of `forward` and a flag of `client` with one `SPEC` speak one transport.
* `client_map_flag_syntax` — these together, and that a rule which is printed is read back.
* `resolveClient`, `clientStarts_iff` — with which rules and tokens `client` starts.
-/

namespace Erbridge
namespace Config

open Tenancy (trim)

def parseClientTransport (modifier : List Char) : Except String Transport :=
  let word := String.ofList (asciiLowercase modifier)
  if word = "tls" then .ok .tls
  else if word = "noise" then .ok .noise
  else .error s!"unknown transport '{word}', expected tls or noise"

/-- Accepts a bare port as shorthand for that port of this host. -/
def normalizeClientListen (raw : List Char) : String :=
  if isU16 raw then "127.0.0.1:" ++ String.ofList raw else String.ofList raw

/-- What stands before the last slash, and the transport behind it. -/
def splitClientTransport (raw : List Char) : Except String (List Char × Transport) :=
  match rsplitOnce '/' raw with
  | some (rest, modifier) => (parseClientTransport modifier).map fun t => (rest, t)
  | none => .ok (raw, .tls)

def parseClientMapFlag (raw : String) : Except String ClientRule :=
  match splitClientTransport raw.toList with
  | .error e => .error e
  | .ok (rest, transport) =>
      match splitArrow rest with
      | none => .error s!"--map must look like LOCAL_LISTEN->SERVER_ADDR[/proto], got: {raw}"
      | some (listen, server) => .ok
          { name := none
            listen := normalizeClientListen (trim listen)
            server := String.ofList (trim server)
            transport := transport
            token := none }

example : (parseClientMapFlag "1080 -> far.example:443/NOISE").toOption
    = some ⟨none, "127.0.0.1:1080", "far.example:443", .noise, none⟩ := by decide

/-! ## What is accepted -/

theorem parseClientTransport_eq_ok_iff {modifier : List Char} {t : Transport} :
    parseClientTransport modifier = .ok t ↔ asciiLowercase modifier = t.word := by
  simp only [parseClientTransport, ofList_eq_iff]
  split
  · rename_i htls
    rw [htls]
    cases t <;> decide
  · rename_i htls
    split
    · rename_i hnoise
      rw [hnoise]
      cases t <;> decide
    · rename_i hnoise
      simp only [reduceCtorEq, false_iff]
      cases t with
      | tls => exact htls
      | noise => exact hnoise

/-- A flag with its pieces: what is written for `LOCAL_LISTEN` and for `SERVER_ADDR`, and the transport,
which is TLS where none is named. -/
inductive ClientReads (raw : List Char) : List Char → List Char → Transport → Prop
  | bare {listen server : List Char} (hraw : raw = listen ++ '-' :: '>' :: server)
      (hslash : '/' ∉ raw) (harrow : NoArrow listen) : ClientReads raw listen server .tls
  | spec {listen server modifier : List Char} {t : Transport}
      (hraw : raw = (listen ++ '-' :: '>' :: server) ++ '/' :: modifier) (hslash : '/' ∉ modifier)
      (harrow : NoArrow listen) (hword : asciiLowercase modifier = t.word) :
      ClientReads raw listen server t

/-- The rule of a flag with these pieces. -/
def clientRuleOf (listen server : List Char) (t : Transport) : ClientRule where
  name := none
  listen :=
    if isU16 (trim listen) then "127.0.0.1:" ++ String.ofList (trim listen)
    else String.ofList (trim listen)
  server := String.ofList (trim server)
  transport := t
  token := none

theorem splitClientTransport_eq_ok_iff {raw rest : List Char} {t : Transport} :
    splitClientTransport raw = .ok (rest, t) ↔
      ('/' ∉ raw ∧ rest = raw ∧ t = .tls) ∨
        ∃ modifier, raw = rest ++ '/' :: modifier ∧ '/' ∉ modifier ∧ asciiLowercase modifier = t.word := by
  unfold splitClientTransport
  cases hsplit : rsplitOnce '/' raw with
  | none =>
      have habsent : '/' ∉ raw := rsplitOnce_eq_none_iff.1 hsplit
      constructor
      · intro h
        cases h
        exact Or.inl ⟨habsent, rfl, rfl⟩
      · rintro (⟨-, rfl, rfl⟩ | ⟨modifier, rfl, -, -⟩)
        · rfl
        · exact absurd (List.mem_append_right rest List.mem_cons_self) habsent
  | some pieces =>
      obtain ⟨before, modifier⟩ := pieces
      obtain ⟨rfl, hslash⟩ := rsplitOnce_eq_some_iff.1 hsplit
      dsimp only
      constructor
      · intro h
        cases hword : parseClientTransport modifier with
        | error e =>
            rw [hword] at h
            cases h
        | ok meant =>
            rw [hword] at h
            cases h
            exact Or.inr ⟨modifier, rfl, hslash, parseClientTransport_eq_ok_iff.1 hword⟩
      · rintro (⟨habsent, -⟩ | ⟨modifier', heq, hslash', hword⟩)
        · exact absurd (List.mem_append_right before List.mem_cons_self) habsent
        · -- the last slash is where both splits are
          have hboth := rsplitOnce_eq_some_iff.2 ⟨heq, hslash'⟩
          rw [hsplit] at hboth
          cases hboth
          rw [parseClientTransport_eq_ok_iff.2 hword]
          rfl

theorem parseClientMapFlag_eq_ok_iff {raw : String} {r : ClientRule} :
    parseClientMapFlag raw = .ok r ↔
      ∃ listen server t, ClientReads raw.toList listen server t ∧ r = clientRuleOf listen server t := by
  unfold parseClientMapFlag
  constructor
  · intro h
    split at h
    · cases h
    · rename_i rest t htransport
      split at h
      · cases h
      · rename_i listen server harrow
        cases h
        obtain ⟨hrest, hlisten⟩ := splitArrow_eq_some_iff.1 harrow
        refine ⟨listen, server, t, ?_, rfl⟩
        rcases splitClientTransport_eq_ok_iff.1 htransport with
          ⟨hslash, hraw, rfl⟩ | ⟨modifier, hraw, hslash, hword⟩
        · exact .bare (hraw ▸ hrest) hslash hlisten
        · exact .spec (by rw [hraw, hrest]) hslash hlisten hword
  · rintro ⟨listen, server, t, hreads, rfl⟩
    have hrest : ∃ rest, splitClientTransport raw.toList = .ok (rest, t)
        ∧ splitArrow rest = some (listen, server) := by
      cases hreads with
      | bare hraw hslash harrow =>
          exact ⟨raw.toList, splitClientTransport_eq_ok_iff.2 (Or.inl ⟨hslash, rfl, rfl⟩),
            splitArrow_eq_some_iff.2 ⟨hraw, harrow⟩⟩
      | spec hraw hslash harrow hword =>
          exact ⟨_, splitClientTransport_eq_ok_iff.2 (Or.inr ⟨_, hraw, hslash, hword⟩),
            splitArrow_eq_some_iff.2 ⟨rfl, harrow⟩⟩
    obtain ⟨rest, htransport, harrow⟩ := hrest
    rw [htransport]
    dsimp only
    rw [harrow]
    rfl

/-! ## The other side -/

theorem lowerParts_of_word {modifier : List Char} {t : Transport}
    (hword : asciiLowercase modifier = t.word) : lowerParts modifier = [t.word] := by
  have hplus : '+' ∉ modifier := by
    intro hmem
    have hlower : '+' ∈ asciiLowercase modifier :=
      List.mem_map.2 ⟨'+', hmem, toLower_eq_plus_iff.2 rfl⟩
    rw [hword] at hlower
    revert hlower
    cases t <;> decide
  rw [lowerParts, List.splitOn_eq_singleton hplus, List.map_singleton, hword]

/-- What `client` accepts behind the last slash stands for the same transport there. -/
theorem parseProtocol_of_parseClientTransport {modifier : List Char} {t : Transport}
    (h : parseClientTransport modifier = .ok t) : parseProtocol modifier = .ok (.tcp, some t) := by
  refine parseProtocol_eq_ok_iff.2 ?_
  rw [lowerParts_of_word (parseClientTransport_eq_ok_iff.1 h)]
  exact .secured (List.Perm.refl _) (Or.inl rfl)

/-- A flag of `client` and a flag of `forward` that have one `SPEC` speak one transport. -/
theorem same_transport {before before' spec : List Char} {c : ClientRule} {f : ForwardRule}
    (hslash : '/' ∉ spec) (hclient : parseClientMapFlag (String.ofList (before ++ '/' :: spec)) = .ok c)
    (hforward : parseMapFlag (String.ofList (before' ++ '/' :: spec)) = .ok f) :
    f.transport = some c.transport ∧ f.protocol = .tcp := by
  obtain ⟨listen, server, t, hreads, rfl⟩ := parseClientMapFlag_eq_ok_iff.1 hclient
  obtain ⟨listen', target, protocol, transport, hreads', rfl⟩ := parseMapFlag_eq_ok_iff.1 hforward
  rw [String.toList_ofList] at hreads hreads'
  have hword : asciiLowercase spec = t.word := by
    cases hreads with
    | bare hraw habsent harrow =>
        exact absurd (List.mem_append_right before List.mem_cons_self) habsent
    | spec hraw hread harrow hword =>
        have hsplit := rsplitOnce_append hslash before
        rw [hraw, rsplitOnce_append hread] at hsplit
        obtain ⟨-, rfl⟩ := Prod.mk.inj (Option.some.inj hsplit)
        exact hword
  have hboth := parseProtocol_of_parseClientTransport (parseClientTransport_eq_ok_iff.2 hword)
  cases hreads' with
  | bare hraw habsent harrow =>
      exact absurd (List.mem_append_right before' List.mem_cons_self) habsent
  | spec hraw hread harrow hmeans =>
      have hsplit := rsplitOnce_append hslash before'
      rw [hraw, rsplitOnce_append hread] at hsplit
      obtain ⟨-, rfl⟩ := Prod.mk.inj (Option.some.inj hsplit)
      rw [parseProtocol_eq_ok_iff.2 hmeans] at hboth
      obtain ⟨rfl, rfl⟩ := Prod.mk.inj (Except.ok.inj hboth)
      exact ⟨rfl, rfl⟩

/-! ## Printed rules -/

/-- A rule that the syntax has a form for. -/
structure ClientPrintable (r : ClientRule) : Prop where
  name : r.name = none
  token : r.token = none
  listen_port : isU16 r.listen.toList = false
  listen_slash : '/' ∉ r.listen.toList
  listen_arrow : NoArrow r.listen.toList
  listen_trim : trim r.listen.toList = r.listen.toList
  server_slash : '/' ∉ r.server.toList
  server_trim : trim r.server.toList = r.server.toList

/-- The forms of a rule. -/
inductive ClientPrints (r : ClientRule) : String → Prop
  | bare (htransport : r.transport = .tls) : ClientPrints r (r.listen ++ "->" ++ r.server)
  | spec {modifier : String} (hslash : '/' ∉ modifier.toList)
      (hword : asciiLowercase modifier.toList = r.transport.word) :
      ClientPrints r (r.listen ++ "->" ++ r.server ++ "/" ++ modifier)

theorem exists_clientPrints (r : ClientRule) : ∃ text, ClientPrints r text := by
  have hslash : '/' ∉ (String.ofList r.transport.word).toList := by
    rw [String.toList_ofList]
    cases r.transport <;> decide
  refine ⟨_, @ClientPrints.spec r (String.ofList r.transport.word) hslash ?_⟩
  rw [String.toList_ofList]
  cases r.transport <;> decide

theorem parseClientMapFlag_of_prints {r : ClientRule} (h : ClientPrintable r) {text : String}
    (hprints : ClientPrints r text) : parseClientMapFlag text = .ok r := by
  refine parseClientMapFlag_eq_ok_iff.2 ⟨r.listen.toList, r.server.toList, r.transport, ?_, ?_⟩
  · cases hprints with
    | bare htransport =>
        rw [htransport]
        refine .bare (by simp) ?_ h.listen_arrow
        simp [h.listen_slash, h.server_slash]
    | spec hslash hword => exact .spec (by simp) hslash h.listen_arrow hword
  · obtain ⟨name, listen, server, transport, token⟩ := r
    obtain ⟨rfl, rfl, hport, -, -, hlisten, -, hserver⟩ := h
    simp only [clientRuleOf, hlisten, hserver, hport, String.ofList_toList, Bool.false_eq_true,
      if_false]

/-- **The syntax of `--map` on the near side**: the flags that are accepted are those of `ClientReads`,
with a rule made of the trimmed pieces; a rule without a bare port is read back from each of its forms;
and a flag of `forward` with the same `SPEC` is one that speaks the same transport. -/
theorem client_map_flag_syntax :
    (∀ raw r, parseClientMapFlag raw = .ok r ↔
      ∃ listen server t, ClientReads raw.toList listen server t ∧ r = clientRuleOf listen server t)
    ∧ (∀ r, ClientPrintable r → (∃ text, ClientPrints r text)
      ∧ ∀ text, ClientPrints r text → parseClientMapFlag text = .ok r)
    ∧ ∀ before before' spec c f, '/' ∉ spec →
      parseClientMapFlag (String.ofList (before ++ '/' :: spec)) = .ok c →
      parseMapFlag (String.ofList (before' ++ '/' :: spec)) = .ok f →
      f.transport = some c.transport ∧ f.protocol = .tcp := by
  refine ⟨fun _ _ => parseClientMapFlag_eq_ok_iff, fun r h => ?_, ?_⟩
  · exact ⟨exists_clientPrints r, fun text hprints => parseClientMapFlag_of_prints h hprints⟩
  · intro before before' spec c f hslash hclient hforward
    exact same_transport hslash hclient hforward

/-! ## Starting `client` -/

/-- `--token` applies to every rule that does not carry its own token. -/
def fillClientToken (cliToken : Option String) (r : ClientRule) : ClientRule :=
  match cliToken with
  | some token => if r.token.isNone then { r with token := some token } else r
  | none => r

def resolveClient (file : List ClientRule) (cliMaps : List String) (cliToken : Option String) :
    Except String (List ClientRule) :=
  (cliMaps.mapM parseClientMapFlag).map fun parsed => (file ++ parsed).map (fillClientToken cliToken)

/-- The loop of `run_client` over the rules before any listener is started. -/
def validateClients : List ClientRule → Except String Unit
  | [] => .ok ()
  | rule :: rules =>
      match rule.validate with
      | .error e => .error e
      | .ok () => validateClients rules

/-- What `run_client` does before any listener is started. -/
def runClient (rules : List ClientRule) : Except String Unit :=
  if rules = [] then
    .error "client mode needs at least one mapping (config `[[client]]` or --map)"
  else validateClients rules

theorem ClientRule.validate_eq_ok_iff {r : ClientRule} :
    r.validate = .ok () ↔ (r.transport = .noise → r.token ≠ none) := by
  unfold ClientRule.validate
  split
  · rename_i h
    simp [h]
  · rename_i h
    simp only [true_iff]
    exact fun htransport htoken => h ⟨htransport, htoken⟩

theorem validate_fillClientToken_iff {cliToken : Option String} {r : ClientRule} :
    (fillClientToken cliToken r).validate = .ok () ↔
      (r.transport = .noise → r.token = none → cliToken ≠ none) := by
  rw [ClientRule.validate_eq_ok_iff]
  cases cliToken with
  | none => simp [fillClientToken]
  | some token =>
      cases htoken : r.token with
      | none => simp [fillClientToken, htoken]
      | some own => simp [fillClientToken, htoken]

theorem validateClients_eq_ok_iff {rules : List ClientRule} :
    validateClients rules = .ok () ↔ ∀ rule ∈ rules, rule.validate = .ok () := by
  induction rules with
  | nil => simp [validateClients]
  | cons rule rules ih =>
      rw [List.forall_mem_cons, ← ih, validateClients]
      cases rule.validate with
      | error e => simp
      | ok u => simp

/-- `client` starts when all flags are accepted, there is a rule, and each Noise rule has a token of its
own or gets the one of `--token`. -/
theorem clientStarts_iff {file : List ClientRule} {cliMaps : List String} {cliToken : Option String} :
    ((resolveClient file cliMaps cliToken).bind runClient) = .ok () ↔
      ∃ parsed, cliMaps.mapM parseClientMapFlag = .ok parsed ∧ file ++ parsed ≠ []
        ∧ ∀ r ∈ file ++ parsed, r.transport = .noise → r.token = none → cliToken ≠ none := by
  unfold resolveClient
  cases hparsed : cliMaps.mapM parseClientMapFlag with
  | error e => simp [Except.map, Except.bind]
  | ok parsed =>
      have hrun : (((Except.ok parsed : Except String (List ClientRule)).map fun parsed =>
          (file ++ parsed).map (fillClientToken cliToken)).bind runClient)
            = runClient ((file ++ parsed).map (fillClientToken cliToken)) := rfl
      have hall : (∀ rule ∈ (file ++ parsed).map (fillClientToken cliToken), rule.validate = .ok ())
          ↔ ∀ r ∈ file ++ parsed, r.transport = .noise → r.token = none → cliToken ≠ none := by
        rw [List.forall_mem_map]
        exact forall₂_congr fun r _ => validate_fillClientToken_iff
      rw [hrun, runClient]
      constructor
      · intro h
        split at h
        · cases h
        · rename_i hne
          exact ⟨parsed, rfl, fun hnil => hne (by rw [hnil]; rfl),
            hall.1 (validateClients_eq_ok_iff.1 h)⟩
      · rintro ⟨parsed', hsame, hne, htokens⟩
        obtain rfl := Except.ok.inj hsame
        rw [if_neg (by simpa using hne)]
        exact validateClients_eq_ok_iff.2 (hall.2 htokens)

end Config
end Erbridge

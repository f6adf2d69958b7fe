/-
  The scripts of the client: `register`, `modify` and `remove`, and `plow`, which asks some nodes
  for a certificate.

  A node answers with the state it has come to, and it may lag behind the others or lie. `plow`
  returns a certificate only when all answers are the same, so one node that tells what its chain
  holds is enough for the answer to be something that the chain has held (`plow_agreement`). What
  was registered comes back as it was given, text for text (`plow_written`).
-/
import Siip.Pallet.History
import Siip.Proxy.Resolver

namespace Siip.Client

open Lib Pallet Python
open Proxy (Substrate bind_eq_ok_iff)

/-! ## The client library -/

/-- A `str` as a `Vec<u8>`, hexadecimal when it starts with `0x`. -/
structure Encoder where
  vec : Str → Bytes
  vec_of_plain : ∀ {s : Str}, ¬ "0x".toList <+: s → vec s = utf8Bytes s

/-- `.value` of a certificate -/
structure CertValue (A : Type) where
  versionNumber : Int32
  ownerId : A
  name : Str
  info : Str
  key : Str
  ipAddr : Str
  domain : Str
  deriving DecidableEq

variable {A : Type}

def value (sub : Substrate) (c : Certificate A) : CertValue A where
  versionNumber := c.versionNumber
  ownerId := c.ownerId
  name := sub.text c.name
  info := sub.text c.info
  key := sub.text c.key
  ipAddr := sub.text c.ipAddr
  domain := sub.text c.domain

/-! ## The scripts -/

section

variable (encoder : Encoder) (keypair : A)

/-- `register`: the call and the keypair that signs it. -/
def register (domain name ipAddr info key : Str) : Extrinsic A :=
  ⟨.signed keypair, .registerCertificate (encoder.vec name) (encoder.vec domain)
    (encoder.vec ipAddr) (encoder.vec info) (encoder.vec key)⟩

/-- `modify.py` -/
def modify (domain name ipAddr info key : Str) : Extrinsic A :=
  ⟨.signed keypair, .modifyCertificate (encoder.vec name) (encoder.vec domain)
    (encoder.vec ipAddr) (encoder.vec info) (encoder.vec key)⟩

/-- `remove.py` -/
def remove (domain : Str) : Extrinsic A :=
  ⟨.signed keypair, .removeCertificate (encoder.vec domain)⟩

end

variable {E : Type}

/-- A node at a URL: what a query for a domain gives. -/
abbrev Node (E A : Type) := Str → Except E (Option (CertValue A))

/-- What ends `plow` without an answer: a query, or `certificates[0]` of an empty list. -/
inductive PlowError (E : Type) where
  | query (e : E)
  | index
  deriving DecidableEq

def plowSingle (domain : Str) (node : Node E A) : Except (PlowError E) (Option (CertValue A)) :=
  (node domain).mapError .query

def plow [DecidableEq A] (domain : Str) (nodes : List (Node E A)) :
    Except (PlowError E) (Option (CertValue A)) := do
  let certificates ← nodes.mapM (plowSingle domain)
  match certificates with
  | [] => .error .index
  | first :: _ =>
    if certificates.any fun cert => decide (cert = none) || decide (cert ≠ first) then .ok none
    else .ok first

/-! ## What `plow` returns -/

section

variable {α β ε : Type} {f : α → Except ε β} {as : List α}

theorem mapM_eq_ok_iff {bs : List β} :
    as.mapM f = .ok bs ↔ List.Forall₂ (fun a b => f a = .ok b) as bs := by
  induction as generalizing bs with
  | nil =>
    rw [List.mapM_nil, List.forall₂_nil_left_iff]
    exact ⟨fun h => (Except.ok.inj h).symm, fun h => congrArg Except.ok h.symm⟩
  | cons a as ih =>
    rw [List.mapM_cons, List.forall₂_cons_left_iff]
    constructor
    · intro h
      obtain ⟨b, hb, h⟩ := bind_eq_ok_iff.mp h
      obtain ⟨bs, hbs, h⟩ := bind_eq_ok_iff.mp h
      exact ⟨b, bs, hb, ih.mp hbs, (Except.ok.inj h).symm⟩
    · rintro ⟨b, bs, hb, hbs, rfl⟩
      rw [hb, ih.mpr hbs]
      rfl

theorem mem_of_forall₂ {R : α → β → Prop} {bs : List β} (h : List.Forall₂ R as bs) {a : α}
    (ha : a ∈ as) : ∃ b ∈ bs, R a b := by
  induction h with
  | nil => exact absurd ha List.not_mem_nil
  | @cons a' b as bs hab _ ih =>
    rcases List.mem_cons.mp ha with rfl | ha
    · exact ⟨b, List.mem_cons_self, hab⟩
    · obtain ⟨b', hb', hab'⟩ := ih ha
      exact ⟨b', List.mem_cons_of_mem b hb', hab'⟩

end

section

variable {domain : Str} {nodes : List (Node E A)} {c : CertValue A}

theorem plowSingle_eq_ok_iff {node : Node E A} {cert : Option (CertValue A)} :
    plowSingle domain node = .ok cert ↔ node domain = .ok cert := by
  rw [plowSingle]
  cases node domain with
  | error e => simp [Except.mapError]
  | ok cert' => simp [Except.mapError]

theorem plow_of_forall [DecidableEq A] (hne : nodes ≠ []) {answer : Option (CertValue A)}
    (hall : ∀ node ∈ nodes, node domain = .ok answer) : plow domain nodes = .ok answer := by
  have hcertificates : nodes.mapM (plowSingle domain) = .ok (nodes.map fun _ => answer) := by
    rw [mapM_eq_ok_iff, List.forall₂_map_right_iff, List.forall₂_same]
    exact fun node hnode => plowSingle_eq_ok_iff.mpr (hall node hnode)
  obtain ⟨node, nodes, rfl⟩ := List.exists_cons_of_ne_nil hne
  rw [plow, hcertificates]
  cases answer with
  | none => simp [bind, Except.bind]
  | some c => simp [bind, Except.bind]

theorem plow_eq_ok_some_iff [DecidableEq A] :
    plow domain nodes = .ok (some c) ↔
      nodes ≠ [] ∧ ∀ node ∈ nodes, node domain = .ok (some c) := by
  constructor
  · intro h
    obtain ⟨certificates, hcertificates, h⟩ := bind_eq_ok_iff.mp h
    have hall := mapM_eq_ok_iff.mp hcertificates
    cases certificates with
    | nil => exact absurd h (by simp)
    | cons first rest =>
      dsimp only at h
      split at h
      · exact absurd h (by simp)
      · rename_i hagree
        obtain rfl : first = some c := Except.ok.inj h
        have hsame : ∀ cert ∈ some c :: rest, cert = some c := by
          intro cert hcert
          by_contra hne
          exact hagree (List.any_eq_true.mpr ⟨cert, hcert, by simp [hne]⟩)
        refine ⟨?_, fun node hnode => ?_⟩
        · rintro rfl
          exact absurd hall (by simp)
        · obtain ⟨cert, hcert, hsingle⟩ := mem_of_forall₂ hall hnode
          rw [hsame cert hcert] at hsingle
          exact plowSingle_eq_ok_iff.mp hsingle
  · rintro ⟨hne, hall⟩
    exact plow_of_forall hne hall

end

/-! ## Nodes that tell what they hold -/

section

variable [DecidableEq A] [Inhabited A]

/-- A node that has come to the first `height` extrinsics of the chain. -/
def honest (sub : Substrate) (encoder : Encoder) (env : Env) (xs : List (Extrinsic A))
    (height : Nat) : Node E A := fun domain =>
  .ok (((runFromEmpty env (xs.take height)).certificateMap.find? (encoder.vec domain)).map
    (value sub))

omit [DecidableEq A] [Inhabited A] in
theorem value_inj {sub : Substrate} {c c' : Certificate A} (hc : FieldsUtf8 c)
    (hc' : FieldsUtf8 c') (h : value sub c = value sub c') : c = c' := by
  have htext : ∀ {v v' : Bytes}, (fromUtf8 v).isSome = true → (fromUtf8 v').isSome = true →
      sub.text v = sub.text v' → v = v' := by
    intro v v' hv hv' htext
    obtain ⟨cs, hcs⟩ := Option.isSome_iff_exists.mp hv
    obtain ⟨cs', hcs'⟩ := Option.isSome_iff_exists.mp hv'
    rw [sub.text_of_utf8 hcs, sub.text_of_utf8 hcs'] at htext
    rw [← utf8Bytes_of_fromUtf8 hcs, ← utf8Bytes_of_fromUtf8 hcs', htext]
  obtain ⟨hversion, howner, hname, hinfo, hkey, hip, hdomain⟩ := CertValue.mk.inj h
  obtain ⟨version, owner, name, info, key, ipAddr, domain⟩ := c
  obtain ⟨version', owner', name', info', key', ipAddr', domain'⟩ := c'
  obtain rfl : version = version' := hversion
  obtain rfl : owner = owner' := howner
  obtain rfl : name = name' := htext hc.name hc'.name hname
  obtain rfl : info = info' := htext hc.info hc'.info hinfo
  obtain rfl : key = key' := htext hc.key hc'.key hkey
  obtain rfl : ipAddr = ipAddr' := htext hc.ipAddr hc'.ipAddr hip
  obtain rfl : domain = domain' := htext hc.domain hc'.domain hdomain
  rfl

/-- If any node tells what it holds, whatever the others do, a returned certificate is one that
    the chain held at the height of this node; nodes at other heights that tell what they hold, hold
    the same. -/
theorem plow_agreement (sub : Substrate) (encoder : Encoder) (env : Env)
    (xs : List (Extrinsic A)) (domain : Str) (nodes : List (Node E A)) (c : CertValue A)
    (hhonest : ∃ height, honest sub encoder env xs height ∈ nodes)
    (h : plow domain nodes = .ok (some c)) :
    ∃ cert, c = value sub cert ∧ ∀ height, honest sub encoder env xs height ∈ nodes →
      (runFromEmpty env (xs.take height)).certificateMap.find? (encoder.vec domain) =
        some cert := by
  obtain ⟨-, hall⟩ := plow_eq_ok_some_iff.mp h
  have hheld : ∀ height, honest sub encoder env xs height ∈ nodes → ∃ cert, c = value sub cert ∧
      (runFromEmpty env (xs.take height)).certificateMap.find? (encoder.vec domain) =
        some cert := by
    intro height hmem
    have hanswer := Except.ok.inj (hall _ hmem)
    obtain ⟨cert, hcert, hvalue⟩ := Option.map_eq_some_iff.mp hanswer
    exact ⟨cert, hvalue.symm, hcert⟩
  have hutf8 : ∀ (height : Nat) (cert : Certificate A),
      (runFromEmpty env (xs.take height)).certificateMap.find? (encoder.vec domain) = some cert →
        FieldsUtf8 cert :=
    fun height cert hcert => ((wellFormed_run env _).forward _ cert hcert).2.2.utf8
  obtain ⟨height, hmem⟩ := hhonest
  obtain ⟨cert, hvalue, hcert⟩ := hheld height hmem
  refine ⟨cert, hvalue, fun height' hmem' => ?_⟩
  obtain ⟨cert', hvalue', hcert'⟩ := hheld height' hmem'
  rw [hcert', value_inj (hutf8 _ _ hcert') (hutf8 _ _ hcert) (hvalue'.symm.trans hvalue)]

/-- What nodes that tell what they hold answer, when they all have come past `xs`. -/
theorem plow_of_honest {sub : Substrate} {encoder : Encoder} {env : Env}
    {xs later : List (Extrinsic A)} {x : Extrinsic A} {domain : Str}
    {answer : Option (CertValue A)}
    (hheld : ∀ n, ((runFromEmpty env (xs ++ x :: later.take n)).certificateMap.find?
      (encoder.vec domain)).map (value sub) = answer)
    {nodes : List (Node E A)} (hne : nodes ≠ [])
    (hnodes : ∀ node ∈ nodes, ∃ height > xs.length,
      node = honest sub encoder env (xs ++ x :: later) height) :
    plow domain nodes = .ok answer := by
  refine plow_of_forall hne fun node hnode => ?_
  obtain ⟨height, hheight, rfl⟩ := hnodes node hnode
  obtain ⟨n, rfl⟩ : ∃ n, height = xs.length + (n + 1) := ⟨height - xs.length - 1, by omega⟩
  rw [honest, List.take_length_add_append, List.take_succ_cons, hheld]

/-- The scripts that write a certificate, where they succeed. -/
inductive Writes (encoder : Encoder) (env : Env) (keypair : A) (s : Storage A)
    (domain name ipAddr info key : Str) : Extrinsic A → Prop
  | register (free : s.certificateMap.find? (utf8Bytes domain) = none) :
    Writes encoder env keypair s domain name ipAddr info key
      (register encoder keypair domain name ipAddr info key)
  | modify (old : Certificate A) (stored : s.certificateMap.find? (utf8Bytes domain) = some old)
      (owner : old.ownerId = keypair) (changed : newCert keypair (utf8Bytes name)
        (utf8Bytes domain) (utf8Bytes ipAddr) (utf8Bytes info) (utf8Bytes key) ≠ old) :
    Writes encoder env keypair s domain name ipAddr info key
      (modify encoder keypair domain name ipAddr info key)

/-- What `register` or `modify` has put on the chain comes back from nodes that have come so far,
    text for text, as long as the owner of the domain spares it. -/
theorem plow_written (sub : Substrate) (encoder : Encoder) (env : Env) (keypair : A)
    (xs later : List (Extrinsic A)) (domain name ipAddr info key : Str) (x : Extrinsic A)
    (hplain : ∀ text ∈ [name, domain, ipAddr, info, key], ¬ "0x".toList <+: text)
    (hfields : fieldError env (utf8Bytes name) (utf8Bytes domain) (utf8Bytes ipAddr)
      (utf8Bytes info) (utf8Bytes key) = none)
    (hx : Writes encoder env keypair (runFromEmpty env xs) domain name ipAddr info key x)
    (hlater : ∀ y ∈ later, Spares keypair (utf8Bytes domain) y)
    (nodes : List (Node E A)) (hne : nodes ≠ [])
    (hnodes : ∀ node ∈ nodes, ∃ height > xs.length,
      node = honest sub encoder env (xs ++ x :: later) height) :
    plow domain nodes =
      .ok (some ⟨certificateVersion, keypair, name, info, key, ipAddr, domain⟩) := by
  simp only [List.forall_mem_cons, List.not_mem_nil, false_implies, implies_true,
    and_true] at hplain
  obtain ⟨hname, hdomain, hip, hinfo, hkey⟩ := hplain
  obtain ⟨cert, hcert⟩ : ∃ cert, newCert keypair (utf8Bytes name) (utf8Bytes domain)
    (utf8Bytes ipAddr) (utf8Bytes info) (utf8Bytes key) = cert := ⟨_, rfl⟩
  have hvalue : value sub cert =
      ⟨certificateVersion, keypair, name, info, key, ipAddr, domain⟩ := by
    simp only [← hcert, value, newCert, sub.text_of_utf8 (fromUtf8_utf8Bytes _)]
  have howner : cert.ownerId = keypair := by rw [← hcert, newCert]
  have hstep : (step env (runFromEmpty env xs) x).certificateMap.find? (utf8Bytes domain) =
      some cert := by
    rw [← hcert]
    cases hx with
    | register free =>
      rw [register, encoder.vec_of_plain hname, encoder.vec_of_plain hdomain,
        encoder.vec_of_plain hip, encoder.vec_of_plain hinfo, encoder.vec_of_plain hkey,
        step_registerCertificate keypair hfields free]
      exact StorageMap.find?_insert_self _ _ _
    | modify old stored owner changed =>
      subst owner
      rw [modify, encoder.vec_of_plain hname, encoder.vec_of_plain hdomain,
        encoder.vec_of_plain hip, encoder.vec_of_plain hinfo, encoder.vec_of_plain hkey,
        step_modifyCertificate hfields stored changed]
      exact StorageMap.find?_insert_self _ _ _
  refine plow_of_honest (fun n => ?_) hne hnodes
  have hrun := find?_run_of_spares env hstep fun y (hy : y ∈ later.take n) =>
    howner ▸ hlater y (List.mem_of_mem_take hy)
  rw [encoder.vec_of_plain hdomain, runFromEmpty, run_append, run_cons]
  rw [runFromEmpty] at hrun
  rw [hrun, Option.map_some, hvalue]

/-- What `remove` has taken from the chain is `None` to nodes that have come so far, until the
    domain is registered again. -/
theorem plow_removed (sub : Substrate) (encoder : Encoder) (env : Env) (keypair : A)
    (xs later : List (Extrinsic A)) (domain : Str) (old : Certificate A)
    (hplain : ¬ "0x".toList <+: domain)
    (hstored : (runFromEmpty env xs).certificateMap.find? (utf8Bytes domain) = some old)
    (howner : old.ownerId = keypair)
    (hlater : ∀ who n ip i k,
      ⟨.signed who, .registerCertificate n (utf8Bytes domain) ip i k⟩ ∉ later)
    (nodes : List (Node E A)) (hne : nodes ≠ [])
    (hnodes : ∀ node ∈ nodes, ∃ height > xs.length,
      node = honest sub encoder env (xs ++ remove encoder keypair domain :: later) height) :
    plow domain nodes = .ok none := by
  subst howner
  have haccepts : accepts (checkDomain env (utf8Bytes domain)) = true := by
    obtain ⟨hdomain, -, haccepted⟩ := (wellFormed_run env xs).forward _ old hstored
    exact hdomain ▸ haccepted.domain
  have hstep : (step env (runFromEmpty env xs)
      (remove encoder old.ownerId domain)).certificateMap.find? (utf8Bytes domain) = none := by
    rw [remove, encoder.vec_of_plain hplain, step_removeCertificate haccepts hstored]
    exact StorageMap.find?_remove_self _ _
  refine plow_of_honest (fun n => ?_) hne hnodes
  have hrun := find?_run_of_free env hstep fun who m ip i k
    (hmem : _ ∈ later.take n) => hlater who m ip i k (List.mem_of_mem_take hmem)
  rw [encoder.vec_of_plain hplain, runFromEmpty, run_append, run_cons]
  rw [runFromEmpty] at hrun
  rw [hrun, Option.map_none]

end

/-! ## A chain with `ab.cd` -/

def plainEncoder : Encoder where
  vec := utf8Bytes
  vec_of_plain _ := rfl

/-- One of the two nodes makes its answer up. -/
theorem plow_agreement_ab :
    ∃ (c : CertValue Nat) (cert : Certificate Nat), c = value Proxy.plainSubstrate cert ∧
      ∀ height, honest Proxy.plainSubstrate plainEncoder asciiEnv [registerAb 1] height ∈
          [honest Proxy.plainSubstrate plainEncoder asciiEnv [registerAb 1] 1,
            fun _ => (.ok (some c) : Except Empty _)] →
        (runFromEmpty asciiEnv ([registerAb 1].take height)).certificateMap.find?
          (plainEncoder.vec "ab.cd".toList) = some cert := by
  have hstored : (runFromEmpty asciiEnv ([registerAb 1].take 1)).certificateMap.find?
      (plainEncoder.vec "ab.cd".toList) = some (certAb 1) := by
    have hdomain : plainEncoder.vec "ab.cd".toList = asBytes "ab.cd" := utf8Bytes_toList _
    have htake : [registerAb 1].take 1 = [registerAb 1] := rfl
    rw [hdomain, htake]
    exact find?_registerAb 1
  refine ⟨value Proxy.plainSubstrate (certAb 1), plow_agreement Proxy.plainSubstrate plainEncoder
    asciiEnv [registerAb 1] "ab.cd".toList _ _ ⟨1, List.mem_cons_self⟩
    (plow_of_forall (by simp) ?_)⟩
  intro node hnode
  simp only [List.mem_cons, List.not_mem_nil, or_false] at hnode
  rcases hnode with rfl | rfl
  · rw [honest, hstored, Option.map_some]
  · rfl

theorem plow_written_ab :
    plow "ab.cd".toList [honest Proxy.plainSubstrate plainEncoder asciiEnv ([] ++
        register plainEncoder 1 "ab.cd".toList "A".toList "1.1.1.1".toList "\x7b\x7d".toList
          "AB".toList :: []) 1] =
      (.ok (some ⟨certificateVersion, 1, "A".toList, "\x7b\x7d".toList, "AB".toList,
        "1.1.1.1".toList, "ab.cd".toList⟩) : Except (PlowError Empty) _) := by
  refine plow_written Proxy.plainSubstrate plainEncoder asciiEnv 1 [] [] "ab.cd".toList "A".toList
    "1.1.1.1".toList "\x7b\x7d".toList "AB".toList _ (by decide) ?_ (.register rfl) (by simp) _
    (by simp) (List.forall_mem_singleton.mpr ⟨1, by decide, rfl⟩)
  simp only [utf8Bytes_toList]
  exact fieldError_ab

theorem plow_removed_ab :
    plow "ab.cd".toList [honest Proxy.plainSubstrate plainEncoder asciiEnv ([registerAb 1] ++
        remove plainEncoder 1 "ab.cd".toList :: []) 2] =
      (.ok none : Except (PlowError Empty) (Option (CertValue Nat))) := by
  refine plow_removed Proxy.plainSubstrate plainEncoder asciiEnv 1 [registerAb 1] []
    "ab.cd".toList (certAb 1) (by decide) ?_ rfl (by simp) _ (by simp)
    (List.forall_mem_singleton.mpr ⟨2, by decide, rfl⟩)
  rw [utf8Bytes_toList]
  exact find?_registerAb 1

end Siip.Client

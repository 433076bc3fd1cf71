import Goboxd.Proofs.JailSettings

/-!
# What a jail sees of the host

The mounts of a jail, one over the other. The order of the arguments is what matters: the
bind of `/etc` comes before the three files that go over it, `/proc` before the mask of
`/proc/sys`, and nothing that comes later covers any of them. So none of the names that leak
the host's identity or lead to its resolver reaches the host's file, whatever is put behind
them; and since `/tmp` is a filesystem of its own, no path leads into another jail's
directory.

That is so for any nsjail that mounts what is documented. The parts of a mount's value stand
between colons. A colon in the path of the temporary directory would move them, so there must
be none.
-/

namespace Goboxd.Runner

open Go CommandLine MountTable

/-! ## The parts of a value -/

theorem colon_not_mem_itoa (n : Int) : (58 : UInt8) ∉ itoa n := by
  intro h
  have hdigit : ∀ d < 10, (58 : UInt8) ≠ UInt8.ofNat (48 + d) := by decide
  rcases mem_itoa h with heq | ⟨d, hd, heq⟩
  · exact absurd heq (by decide)
  · exact hdigit d hd heq

theorem colon_not_mem_uidCache (uid : Int) (dir : String) (h : 58 ∉ str dir) :
    58 ∉ uidCache uid dir := by
  intro hc
  rcases List.mem_append.mp hc with hc | hc
  · rcases List.mem_append.mp hc with hc | hc
    · exact absurd hc (by decide)
    · exact colon_not_mem_itoa uid hc
  · exact h hc

/-- The first name of an absolute path. -/
theorem names_root {n : GoString} (rest : GoString) (h : 47 ∉ n) (hne : n ≠ []) :
    pathNames (47 :: (n ++ 47 :: rest)) = n :: pathNames rest := by
  have hroot : split 47 (47 :: (n ++ 47 :: rest)) = [] :: n :: split 47 rest := by
    have hnil : split 47 ([] ++ 47 :: (n ++ 47 :: rest)) = [] :: split 47 (n ++ 47 :: rest) :=
      split_line _ List.not_mem_nil
    rw [List.nil_append] at hnil
    rw [hnil, split_line rest h]
  rw [pathNames, hroot, List.filter_cons_of_neg (by simp), List.filter_cons_of_pos (by simpa)]
  rfl

/-! ## The table -/

/-- No colon in the paths that go into the values. -/
structure NoColon (appDir : GoString) (masks : Masks) : Prop where
  appDir : 58 ∉ appDir
  hosts : 58 ∉ masks.hosts
  resolv : 58 ∉ masks.resolv
  nsswitch : 58 ∉ masks.nsswitch

def cacheTable (host : Host) (dir : GoString) (name : String) : List (Mount GoString Origin) :=
  if host.isDir dir then [⟨[str "app", str name], .host (pathNames dir) true⟩] else []

/-- The mounts that are there before `/tmp`, `/proc` and what the server contributes. -/
def rootTable : List (Mount GoString Origin) := [⟨[], .host [] false⟩]

def ownTable (appDir : GoString) : List (Mount GoString Origin) :=
  [⟨[str "tmp"], .fs (str "tmpfs")⟩, ⟨[str "proc"], .fs (str "proc")⟩,
    ⟨[str "proc", str "sys"], .fs (str "tmpfs")⟩, ⟨[str "app"], .host (pathNames appDir) true⟩]

def etcTable (masks : Masks) : List (Mount GoString Origin) :=
  [⟨[str "etc"], .host [str "etc"] true⟩,
    ⟨[str "etc", str "hosts"], .host (pathNames masks.hosts) false⟩,
    ⟨[str "etc", str "resolv.conf"], .host (pathNames masks.resolv) false⟩,
    ⟨[str "etc", str "nsswitch.conf"], .host (pathNames masks.nsswitch) false⟩]

def sharedTable : List (Mount GoString Origin) :=
  [⟨[str "usr"], .host [str "usr"] true⟩, ⟨[str "lib"], .host [str "lib"] true⟩,
    ⟨[str "lib64"], .host [str "lib64"] true⟩, ⟨[str "bin"], .host [str "bin"] true⟩,
    ⟨[str "dev"], .host [str "dev"] true⟩,
    ⟨[str "var", str "lib"], .host [str "var", str "lib"] true⟩]

def cachesTable (host : Host) (uid : Int) : List (Mount GoString Origin) :=
  cacheTable host (uidCache uid "/go-build") ".gocache" ++
    if host.ccache then cacheTable host (uidCache uid "/ccache") ".ccache" else []

def jailTable (host : Host) (appDir : GoString) (uid : Int) (masks : Masks) :
    List (Mount GoString Origin) :=
  rootTable ++ ownTable appDir ++ etcTable masks ++ (cachesTable host uid ++ sharedTable)

section

variable {n : Nsjail} (hn : n.Documented)

include hn

theorem mount_mask {path : GoString} (target : String) (h : 58 ∉ path)
    (htarget : 58 ∉ str target) (hne : str target ≠ []) :
    n.mount (.bindmountRo, path ++ str ":" ++ str target) =
      ⟨pathNames (str target), .host (pathNames path) false⟩ := by
  rw [List.append_assoc]
  exact hn.bindRo path (str target) h htarget hne

theorem mount_rw {dir : GoString} (target : String) (h : 58 ∉ dir) (htarget : 58 ∉ str target)
    (hne : str target ≠ []) :
    n.mount (.bindmount, dir ++ str ":" ++ str target ++ str ":rw") =
      ⟨pathNames (str target), .host (pathNames dir) true⟩ := by
  rw [List.append_assoc, List.append_assoc]
  exact hn.bindTo dir (str target) h htarget hne

theorem mount_cache (host : Host) {dir : GoString} (target name : String) (h : 58 ∉ dir)
    (htarget : 58 ∉ str target) (hnames : pathNames (str target) = [str "app", str name])
    (hne : str target ≠ []) :
    (cacheMount host dir target).map n.mount = cacheTable host dir name := by
  unfold cacheMount cacheTable
  split
  · rw [List.map_cons, List.map_nil, mount_rw hn target h htarget hne, hnames]
  · rfl

theorem mounts_caches (host : Host) (uid : Int) :
    (cacheMount host (uidCache uid "/go-build") "/app/.gocache" ++
      (if host.ccache then cacheMount host (uidCache uid "/ccache") "/app/.ccache"
        else [])).map n.mount = cachesTable host uid := by
  have hgo := mount_cache hn host "/app/.gocache" ".gocache"
    (colon_not_mem_uidCache uid "/go-build" (by decide)) (by decide) (by decide) (by decide)
  have hcc := mount_cache hn host "/app/.ccache" ".ccache"
    (colon_not_mem_uidCache uid "/ccache" (by decide)) (by decide) (by decide) (by decide)
  unfold cachesTable
  rw [List.map_append, hgo]
  split
  · rw [hcc]
  · rfl

theorem mounts_shared :
    ([(.bindmount, str "/usr"), (.bindmount, str "/lib"), (.bindmount, str "/lib64"),
      (.bindmount, str "/bin"), (.bindmount, str "/dev"),
      (.bindmount, str "/var/lib")] : List (NsjailOpt × GoString)).map n.mount =
      sharedTable := by
  simp only [List.map_cons, List.map_nil]
  rw [hn.bind _ (by decide), hn.bind _ (by decide), hn.bind _ (by decide),
    hn.bind _ (by decide), hn.bind _ (by decide), hn.bind _ (by decide)]
  decide

/-- The mounts that are made of the settings of a jail. -/
theorem mounts_eq {os : List (Given NsjailOpt GoString)} {host : Host} {appDir : GoString}
    {lim : ExecLimits} {bytes uid : Int} {jailCg : Option Cgroupv2.Jail} {masks : Masks}
    {policy : Policy}
    (hset : settingsOf os = jailSettings host appDir lim bytes uid jailCg masks policy)
    (h : NoColon appDir masks) : n.mounts os = jailTable host appDir uid masks := by
  have hchroot : pairsOf (fun o => o = .chroot) os = [(.chroot, str "/")] := by
    have hvalues : valuesOf .chroot os = [str "/"] := congrArg Settings.chroot hset
    rw [pairsOf_one, hvalues]
    rfl
  have hmounts : pairsOf NsjailOpt.mounts os = jailMounts host appDir uid masks :=
    congrArg Settings.mounts hset
  have htmp : n.mount (.mount, str "none:/tmp:tmpfs:size=268435456") =
      ⟨[str "tmp"], .fs (str "tmpfs")⟩ :=
    hn.fs (str "/tmp") (str "tmpfs") (str "size=268435456") (by decide) (by decide)
  have hproc : n.mount (.mount, str "none:/proc:proc:ro") =
      ⟨[str "proc"], .fs (str "proc")⟩ :=
    hn.fs (str "/proc") (str "proc") (str "ro") (by decide) (by decide)
  have hsys : n.mount (.mount, str "none:/proc/sys:tmpfs:size=4096") =
      ⟨[str "proc", str "sys"], .fs (str "tmpfs")⟩ :=
    hn.fs (str "/proc/sys") (str "tmpfs") (str "size=4096") (by decide) (by decide)
  have happ : n.mount (.bindmount, appDir ++ str ":/app:rw") =
      ⟨[str "app"], .host (pathNames appDir) true⟩ :=
    hn.bindTo appDir (str "/app") h.appDir (by decide) (by decide)
  have hetc : n.mount (.bindmount, str "/etc") = ⟨[str "etc"], .host [str "etc"] true⟩ :=
    hn.bind (str "/etc") (by decide)
  have hhosts := mount_mask hn "/etc/hosts" h.hosts (by decide) (by decide)
  have hresolv := mount_mask hn "/etc/resolv.conf" h.resolv (by decide) (by decide)
  have hnsswitch := mount_mask hn "/etc/nsswitch.conf" h.nsswitch (by decide) (by decide)
  rw [hn.order os (congrArg Settings.disableProc hset), hchroot, hmounts, jailMounts,
    ← List.append_assoc (cacheMount ..), List.map_append, List.map_append, List.map_append,
    mounts_caches hn, mounts_shared hn]
  simp only [List.map_cons, List.map_nil, hn.chroot, htmp, hproc, hsys, happ, hetc, hhosts,
    hresolv, hnsswitch]
  rfl

end

/-! ## What a path leads to -/

/-- What comes last covers nothing of `/etc`, `/proc` and `/tmp`, and nothing of `/app` but
the caches. -/
theorem later_target {host : Host} {uid : Int} {m : Mount GoString Origin}
    (hm : m ∈ cachesTable host uid ++ sharedTable) :
    (∃ n ∈ [str ".gocache", str ".ccache"], ∃ dir, m.target = [str "app", n] ∧
      m.source = .host (pathNames (uidCache uid dir)) true) ∨
    ∃ n ∈ [str "usr", str "lib", str "lib64", str "bin", str "dev", str "var"],
      ∃ rest, m.target = n :: rest ∧ m.source = .host (n :: rest) true := by
  have hcache : ∀ {dir name : String}, m ∈ cacheTable host (uidCache uid dir) name →
      m.target = [str "app", str name] ∧
        m.source = .host (pathNames (uidCache uid dir)) true := by
    intro dir name hm
    unfold cacheTable at hm
    split at hm
    · cases List.mem_singleton.mp hm
      exact ⟨rfl, rfl⟩
    · cases hm
  rcases List.mem_append.mp hm with hm | hm
  · left
    rcases List.mem_append.mp hm with hm | hm
    · exact ⟨_, List.mem_cons_self, _, hcache hm⟩
    · split at hm
      · exact ⟨_, List.mem_cons_of_mem _ List.mem_cons_self, _, hcache hm⟩
      · cases hm
  · right
    simp only [sharedTable, List.mem_cons, List.not_mem_nil, or_false] at hm
    rcases hm with rfl | rfl | rfl | rfl | rfl | rfl
    all_goals exact ⟨_, by decide, _, rfl, rfl⟩

theorem names_uidCache (uid : Int) (dir : String) :
    ∃ tail, pathNames (uidCache uid dir) = str "var" :: tail := by
  rw [uidCache, List.append_assoc]
  exact ⟨_, names_root (n := str "var") (str "cache/goboxd/uid-" ++ (itoa uid ++ str dir))
    (by decide) (by decide)⟩

/-- What a mount may be of: the whole host, the jail's own directory, a masked file, or
something of the host that is not below `/tmp`. -/
theorem source_cases {host : Host} {appDir : GoString} {uid : Int} {masks : Masks}
    {m : Mount GoString Origin} {path : List GoString} {writable : Bool}
    (hm : m ∈ jailTable host appDir uid masks) (hsource : m.source = .host path writable) :
    (m.target = [] ∧ path = []) ∨ path = pathNames appDir ∨
      (∃ mask ∈ [masks.hosts, masks.resolv, masks.nsswitch], path = pathNames mask) ∨
      ∃ n tail, n ≠ str "tmp" ∧ path = n :: tail := by
  rcases List.mem_append.mp hm with hm | hm
  · simp only [rootTable, ownTable, etcTable, List.cons_append, List.nil_append, List.mem_cons,
      List.not_mem_nil, or_false] at hm
    rcases hm with rfl | rfl | rfl | rfl | rfl | rfl | rfl | rfl | rfl <;> cases hsource
    · exact .inl ⟨rfl, rfl⟩
    · exact .inr (.inl rfl)
    · exact .inr (.inr (.inr ⟨_, _, by decide, rfl⟩))
    all_goals exact .inr (.inr (.inl ⟨_, by simp, rfl⟩))
  · refine .inr (.inr (.inr ?_))
    rcases later_target hm with ⟨-, -, dir, -, heq⟩ | ⟨n, hn, tail, -, heq⟩
    · obtain ⟨tail, hnames⟩ := names_uidCache uid dir
      rw [heq, hnames] at hsource
      cases hsource
      exact ⟨_, _, by decide, rfl⟩
    · rw [heq] at hsource
      cases hsource
      exact ⟨n, tail, fun htmp => absurd (htmp ▸ hn) (by decide), rfl⟩

theorem see_jailTable {host : Host} {appDir : GoString} {uid : Int} {masks : Masks}
    {n : GoString} {rest : List GoString}
    (happ : n = str "app" → ∀ name tail, rest = name :: tail →
      name ∉ [str ".gocache", str ".ccache"])
    (hn : n ∉ [str "usr", str "lib", str "lib64", str "bin", str "dev", str "var"]) :
    see (jailTable host appDir uid masks) (n :: rest) =
      see (rootTable ++ ownTable appDir ++ etcTable masks) (n :: rest) := by
  refine see_uncovered fun m hm hcov => ?_
  rcases later_target hm with ⟨name, hname, -, heq, -⟩ | ⟨name, hname, tail, heq, -⟩
  · rw [heq] at hcov
    obtain ⟨h1, h2⟩ := List.cons_prefix_cons.mp hcov
    obtain ⟨tail, rfl⟩ := h2
    exact happ h1.symm name tail rfl hname
  · rw [heq] at hcov
    obtain ⟨h1, -⟩ := List.cons_prefix_cons.mp hcov
    exact hn (h1 ▸ hname)

/-- The path of the host that a path of the jail leads to. -/
def hostPath (ms : List (Mount GoString Origin)) (p : List GoString) : Option (List GoString) :=
  match see ms p with
  | some (.host path _, rest) => some (path ++ rest)
  | _ => none

/-- What a jail with these mounts sees of the host. -/
structure Sees (ms : List (Mount GoString Origin)) (appDir : GoString) (masks : Masks) :
    Prop where
  hosts : ∀ rest, see ms (str "etc" :: str "hosts" :: rest) =
    some (.host (pathNames masks.hosts) false, rest)
  resolv : ∀ rest, see ms (str "etc" :: str "resolv.conf" :: rest) =
    some (.host (pathNames masks.resolv) false, rest)
  nsswitch : ∀ rest, see ms (str "etc" :: str "nsswitch.conf" :: rest) =
    some (.host (pathNames masks.nsswitch) false, rest)
  sysctl : ∀ rest, see ms (str "proc" :: str "sys" :: rest) =
    some (.fs (str "tmpfs"), rest)
  tmp : ∀ rest, see ms (str "tmp" :: rest) = some (.fs (str "tmpfs"), rest)
  app : ∀ name rest, name ∉ [str ".gocache", str ".ccache"] →
    see ms (str "app" :: name :: rest) =
      some (.host (pathNames appDir) true, name :: rest)
  confined : ∀ p q, hostPath ms p = some q → [str "tmp"] <+: q →
    pathNames appDir <+: q ∨
      ∃ mask ∈ [masks.hosts, masks.resolv, masks.nsswitch], pathNames mask <+: q

theorem sees_jailTable (host : Host) (appDir : GoString) (uid : Int) (masks : Masks) :
    Sees (jailTable host appDir uid masks) appDir masks := by
  have hfirst : ∀ n ∈ [str "etc", str "proc", str "tmp"], ∀ rest,
      see (jailTable host appDir uid masks) (n :: rest) =
      see (rootTable ++ ownTable appDir ++ etcTable masks) (n :: rest) := by
    intro n hn rest
    refine see_jailTable (fun heq => absurd (heq ▸ hn) (by decide)) ?_
    revert n
    decide
  have htmp : ∀ rest, see (jailTable host appDir uid masks) (str "tmp" :: rest) =
      some (.fs (str "tmpfs"), rest) := fun rest =>
    (hfirst _ (by decide) rest).trans (see_at rootTable rest rfl)
  refine ⟨fun rest => ?_, fun rest => ?_, fun rest => ?_, fun rest => ?_, htmp,
    fun name rest hname => ?_, fun p q hq htmpq => ?_⟩
  · exact (hfirst _ (by decide) _).trans
      (see_at (rootTable ++ ownTable appDir ++ [_]) rest rfl)
  · exact (hfirst _ (by decide) _).trans
      (see_at (rootTable ++ ownTable appDir ++ [_, _]) rest rfl)
  · exact (hfirst _ (by decide) _).trans
      (see_at (rootTable ++ ownTable appDir ++ [_, _, _]) rest rfl)
  · exact (hfirst _ (by decide) _).trans (see_at (rootTable ++ [_, _]) rest rfl)
  · have hname' : ∀ n tail, name :: rest = n :: tail →
        n ∉ [str ".gocache", str ".ccache"] := fun n tail heq =>
      (List.cons.inj heq).1 ▸ hname
    rw [see_jailTable (fun _ => hname') (by decide)]
    have hlater : (etcTable masks).all
        (Mount.apart ⟨[str "app"], .host (pathNames appDir) true⟩) = true := rfl
    exact see_at (rootTable ++ [_, _, _]) (name :: rest) hlater
  · rw [hostPath] at hq
    split at hq
    · next path writable rest hsee =>
        cases hq
        obtain ⟨m, hm, hsource, hp⟩ := mem_of_see hsee
        have hout : ¬ [str "tmp"] <+: p := by
          rintro ⟨tail, rfl⟩
          rw [List.singleton_append, htmp tail] at hsee
          cases hsee
        rcases source_cases hm hsource with ⟨hroot, rfl⟩ | rfl | ⟨mask, hmask, rfl⟩ |
            ⟨n, tail, hn, rfl⟩
        · rw [hroot, List.nil_append] at hp
          rw [List.nil_append, ← hp] at htmpq
          exact absurd htmpq hout
        · exact .inl (List.prefix_append _ _)
        · exact .inr ⟨mask, hmask, List.prefix_append _ _⟩
        · exact absurd (List.cons_prefix_cons.mp htmpq).1.symm hn
    · cases hq

/-- A jail sees the masked files in place of the host's, nothing of the kernel's tunables, its
own directory, and of what lies below `/tmp` on the host nothing but that and the masks. -/
theorem jail_view {n : Nsjail} (hn : n.Documented) {host : Host} {appDir : GoString}
    {lim : ExecLimits} {uid : Int} {jailCg : Option Cgroupv2.Jail} {langSeccomp : GoString}
    {args : List GoString}
    (h : nsjailArgs host appDir lim uid jailCg langSeccomp = .ok args)
    (hcolon : ∀ masks policy, LookedUp host langSeccomp masks policy → NoColon appDir masks)
    (cmdArgs : List GoString) :
    ∃ masks policy os, LookedUp host langSeccomp masks policy ∧
      n.reads (args ++ cmdArgs) = some (os, cmdArgs) ∧
      pairsOf NsjailOpt.polices os = [policy.given] ∧ Sees (n.mounts os) appDir masks := by
  obtain ⟨masks, policy, words, os, hlooked, rfl, hspells, hset⟩ := nsjailArgs_spells h
  refine ⟨masks, policy, os, hlooked, reads_spelled hn.reader hspells cmdArgs,
    congrArg Settings.policies hset, ?_⟩
  rw [mounts_eq hn hset (hcolon masks policy hlooked)]
  exact sees_jailTable host appDir uid masks

end Goboxd.Runner

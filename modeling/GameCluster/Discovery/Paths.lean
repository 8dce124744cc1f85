import GameCluster.Lib.Decimal
import GameCluster.Lib.Fields

/-!
The etcd keys of the services (`pkg/discovery/service.go`): how `etcdPath` writes
them, what `etcdSvcPrefix` selects of them, and how `parseServicePath` reads
them. The prefix is the one of `NewManager`, for any product name.
-/

namespace GameCluster.Discovery

open Lib

/-- `Manager.prefix`. -/
def servicePrefix (prod : String) : String := "/service/" ++ prod

def etcdPath (pre : String) (svcName : String) (serID : Int32) : String :=
  pre ++ "/" ++ svcName ++ "/" ++ serID.toInt.repr

def etcdSvcPrefix (pre : String) (svcName : String) : String := pre ++ "/" ++ svcName ++ "/"

/-- `strconv.Atoi`, with an `int` of 64 bits. -/
def atoi (s : String) : Option ℤ := parseInt 64 s

/-- The last two parts of the path. -/
def parseServicePath (key : String) : Option (String × Int32) :=
  match ((trim '/' key.toList).splitOn '/').reverse with
  | idStr :: srvName :: _ =>
    (atoi (String.ofList idStr)).map fun idx => (String.ofList srvName, Int32.ofInt idx)
  | _ => none

/-- A service name without a slash, and a node of the service. -/
@[ext] structure Key where
  svc : String
  id : Int32
  noSlash : '/' ∉ svc.toList
  deriving DecidableEq

def Key.path (pre : String) (k : Key) : String := etcdPath pre k.svc k.id

theorem atoi_repr (id : Int32) : atoi id.toInt.repr = some id.toInt := by
  have hlow := id.le_toInt
  have hhigh := id.toInt_lt
  exact parseInt_repr (by omega) (by omega)

theorem notMem_id (id : Int32) : '/' ∉ id.toInt.repr.toList :=
  notMem_int_repr (by decide) (by decide) _

theorem id_ne_nil (id : Int32) : id.toInt.repr.toList ≠ [] := by
  intro hnil
  have hempty : id.toInt.repr = "" := String.toList_inj.mp hnil
  have hparse := atoi_repr id
  rw [hempty] at hparse
  exact absurd hparse (by simp [atoi, parseInt, decimalInt, decimalNat])

theorem etcdPath_toList (pre svc : String) (id : Int32) :
    (etcdPath pre svc id).toList =
      pre.toList ++ '/' :: (svc.toList ++ '/' :: id.toInt.repr.toList) := by
  simp [etcdPath]

theorem parse_path (prod : String) (k : Key) :
    parseServicePath (k.path (servicePrefix prod)) = some (k.svc, k.id) := by
  have htext : (k.path (servicePrefix prod)).toList =
      '/' :: 's' :: (("ervice/".toList ++ prod.toList ++ '/' :: (k.svc.toList ++ ['/'])) ++
        k.id.toInt.repr.toList) := by
    rw [Key.path, etcdPath_toList, servicePrefix]
    simp
  have htrim : trim '/' (k.path (servicePrefix prod)).toList =
      's' :: (("ervice/".toList ++ prod.toList ++ '/' :: (k.svc.toList ++ ['/'])) ++
        k.id.toInt.repr.toList) := by
    rw [htext, trim_sep_cons, trim_of_ends (by decide) _ (id_ne_nil k.id) (notMem_id k.id)]
  have hparts : ((trim '/' (k.path (servicePrefix prod)).toList).splitOn '/').reverse =
      k.id.toInt.repr.toList :: k.svc.toList ::
        (('s' :: ("ervice/".toList ++ prod.toList)).splitOn '/').reverse := by
    rw [htrim, ← splitOn_reverse_two _ k.noSlash (notMem_id k.id)]
    simp
  unfold parseServicePath
  rw [hparts]
  simp only [String.ofList_toList, atoi_repr, Option.map_some, Int32.ofInt_toInt]

theorem path_inj (prod : String) {k k' : Key}
    (h : k.path (servicePrefix prod) = k'.path (servicePrefix prod)) : k = k' := by
  have hparse := parse_path prod k
  rw [h, parse_path] at hparse
  obtain ⟨hsvc, hid⟩ := Prod.mk.inj (Option.some.inj hparse)
  exact (Key.ext hsvc hid).symm

/-- The watch and the query of a service get the keys of that service. -/
theorem svcPrefix_iff (pre : String) {svc : String} (hsvc : '/' ∉ svc.toList) (k : Key) :
    (etcdSvcPrefix pre svc).toList <+: (k.path pre).toList ↔ k.svc = svc := by
  have hpre : (etcdSvcPrefix pre svc).toList = pre.toList ++ '/' :: (svc.toList ++ ['/']) := by
    simp [etcdSvcPrefix]
  rw [hpre, Key.path, etcdPath_toList]
  constructor
  · rintro ⟨rest, hrest⟩
    have htail : svc.toList ++ '/' :: rest = k.svc.toList ++ '/' :: k.id.toInt.repr.toList := by
      simpa using hrest
    exact (String.toList_inj.mp (append_sep_inj hsvc k.noSlash htail).1).symm
  · rintro rfl
    exact ⟨k.id.toInt.repr.toList, by simp⟩

end GameCluster.Discovery

import PowerLift.Image.Dol
import PowerLift.Image.Elf

/-!
Reading an executable file of either kind.
-/

namespace PowerLift.Image

/-- ELF files are known by their first bytes. Every other file is taken for a DOL file. -/
def parse (data : Array UInt8) : Except ContainerFault Image :=
  if data.toList.take 4 == [0x7F, 0x45, 0x4C, 0x46] then Elf.parse data else Dol.parse data

end PowerLift.Image

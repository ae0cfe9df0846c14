import RocrRuntime.Core.Driver
import RocrRuntime.Xdna.CacheLine
import RocrRuntime.Xdna.FlushLoop
import RocrRuntime.Xdna.ClflushData
import RocrRuntime.Xdna.ClflushRun
